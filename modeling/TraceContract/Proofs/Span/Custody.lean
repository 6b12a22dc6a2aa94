import TraceContract.Proofs.Span.History

/-!
# Who closes a span

Of the objects that a span was moved through at most one is open, and that one closes it.  What is
done with objects of spans, and in what world, is a `History`.

* `History.Kept` is the invariant.  Of the objects of one span at most one is open, it is the one
  that the story names, and it still is as it was begun.
* `Kept.act` is the step and `kept_run` the run.
* `records_of_every_span`: the records of a span are those that its story asks for.
-/

namespace TraceContract

namespace History

variable {σ : Type}

/-! ### The invariant -/

structure Told (story : Story) (calls : List Call) : Prop where
  due : calls.map Call.sent = story.due
  refused : story.carrier = none ↔ Call.Refused calls
  idle : story.carrier = none → story.ended = none

/-- What is kept of a story and a span that an object `k` holds. -/
structure Held (story : Story) (k : Nat) (s : Span) : Prop where
  /-- The only open object of a span is its carrier. -/
  isOpen : s.closed = false ↔ story.carrier = some k ∧ story.ended = none
  unchanged : s.closed = false → s = story.fresh

/-- What is kept of the `i`th story and its carrier `k`. -/
structure Carried (h : History σ) (i : Nat) (story : Story) (k : Nat) : Prop where
  made : k < h.objects.length
  own : ∀ o, h.at? k = some o → o.number = i
  gone : h.at? k = none → story.ended ≠ none

/-- The invariant of all runs. -/
structure Kept (h : History σ) : Prop where
  told : ∀ i story, h.stories[i]? = some story → Told story (h.callsOf i)
  numbered : ∀ e ∈ h.calls, e.1 < h.stories.length
  held : ∀ k o, h.at? k = some o →
    ∃ story, h.stories[o.number]? = some story ∧ Held story k o.span
  carried : ∀ i story k, h.stories[i]? = some story → story.carrier = some k →
    Carried h i story k

/-! ### One act keeps the invariant -/

namespace Kept

variable {h : History σ}

theorem start (w : σ) : Kept { world := w } where
  told i story hget := absurd hget (by simp)
  numbered e he := absurd he (by simp)
  held k o ho := absurd ho (by simp [at?])
  carried i story k hget := absurd hget (by simp)

theorem elsewhere (hk : Kept h) (w : σ) : Kept { h with world := w } where
  told := hk.told
  numbered := hk.numbered
  held := hk.held
  carried i story k hget hcarrier :=
    let hold := hk.carried i story k hget hcarrier
    ⟨hold.made, hold.own, hold.gone⟩

theorem callsOf_eq_nil (hk : Kept h) : h.callsOf h.stories.length = [] :=
  Call.about_eq_nil hk.numbered

section

variable {story : Story} {slot : List (Option Holder)} {after : σ × List Call}

theorem told_asked (hk : Kept h) (htold : Told story after.2) {i : Nat} {story' : Story}
    (hget : (h.asked story slot after).stories[i]? = some story') :
    Told story' ((h.asked story slot after).callsOf i) := by
  rw [callsOf_asked]
  rcases stories_asked hget with hold | ⟨rfl, rfl⟩
  · have hlt : i < h.stories.length := (List.getElem?_eq_some_iff.mp hold).1
    rw [if_neg (by omega), List.append_nil]
    exact hk.told i story' hold
  · rw [if_pos rfl, hk.callsOf_eq_nil, List.nil_append]
    exact htold

theorem numbered_asked (hk : Kept h) {e : Nat × Call}
    (he : e ∈ (h.asked story slot after).calls) :
    e.1 < (h.asked story slot after).stories.length := by
  show e.1 < (h.stories ++ [story]).length
  rw [List.length_append, List.length_singleton]
  rcases List.mem_append.mp he with hold | hnew
  · have hlt := hk.numbered e hold
    omega
  · obtain ⟨call, _, rfl⟩ := List.mem_map.mp hnew
    exact Nat.lt_succ_self _

/-- The story of a new span names the new object as its carrier, and there is none for a span
that was not begun. -/
def Placed (h : History σ) (story : Story) (slot : List (Option Holder)) : Prop :=
  (slot = [] ∧ story.carrier = none) ∨
    ∃ s, slot = [some ⟨h.stories.length, s⟩] ∧ story.carrier = some h.objects.length ∧
      Held story h.objects.length s

theorem held_asked (hk : Kept h) (hslot : Placed h story slot) {k : Nat} {o : Holder}
    (ho : (h.asked story slot after).at? k = some o) :
    ∃ story', (h.asked story slot after).stories[o.number]? = some story' ∧
      Held story' k o.span := by
  rcases at?_asked ho with hold | ⟨hle, hnew⟩
  · obtain ⟨story', hget, hheld⟩ := hk.held k o hold
    exact ⟨story', stories_asked_of_lt hget, hheld⟩
  rcases hslot with ⟨rfl, _⟩ | ⟨s, rfl, _, hheld⟩
  · exact absurd hnew (by simp)
  rw [List.getElem?_singleton] at hnew
  split at hnew
  next hzero =>
    have hlen : k = h.objects.length := by omega
    obtain rfl : ⟨h.stories.length, s⟩ = o := Option.some.inj (Option.some.inj hnew)
    subst hlen
    exact ⟨story, List.getElem?_concat_length .., hheld⟩
  next => exact absurd hnew (by simp)

theorem carried_asked (hk : Kept h) (hslot : Placed h story slot) {i k : Nat} {story' : Story}
    (hget : (h.asked story slot after).stories[i]? = some story')
    (hcarrier : story'.carrier = some k) : Carried (h.asked story slot after) i story' k := by
  have hlen : (h.asked story slot after).objects.length = h.objects.length + slot.length :=
    List.length_append
  rcases stories_asked hget with hold | ⟨rfl, rfl⟩
  · obtain ⟨hmade, hown, hgone⟩ := hk.carried i story' k hold hcarrier
    refine ⟨by omega, ?_, ?_⟩
    · rw [at?_asked_of_lt hmade]
      exact hown
    · rw [at?_asked_of_lt hmade]
      exact hgone
  rcases hslot with ⟨_, hnone⟩ | ⟨s, rfl, hsome, _⟩
  · rw [hnone] at hcarrier
    exact absurd hcarrier (by simp)
  obtain rfl : h.objects.length = k := Option.some.inj (hsome.symm.trans hcarrier)
  have hat : (h.asked story' [some ⟨h.stories.length, s⟩] after).at? h.objects.length =
      some ⟨h.stories.length, s⟩ := by
    show (h.objects ++ [some ⟨h.stories.length, s⟩])[h.objects.length]?.join = _
    rw [List.getElem?_concat_length]
    rfl
  refine ⟨by rw [hlen]; exact Nat.lt_succ_self _, ?_, ?_⟩
  · intro o ho
    rw [hat] at ho
    obtain rfl := Option.some.inj ho
    rfl
  · intro hnone
    rw [hat] at hnone
    exact absurd hnone (by simp)

theorem asked (hk : Kept h) (htold : Told story after.2) (hslot : Placed h story slot) :
    Kept (h.asked story slot after) where
  told _ _ hget := hk.told_asked htold hget
  numbered _ he := hk.numbered_asked he
  held _ _ ho := hk.held_asked hslot ho
  carried _ _ _ hget hcarrier := hk.carried_asked hslot hget hcarrier

end

/-- Where the object `k` is closed or let go, only the story of its span can change, and only if
the span was open.  It then was as it was begun, and carried by `k`. -/
theorem finish_cases (hk : Kept h) {k : Nat} {o : Holder} (ho : h.at? k = some o) {i : Nat}
    {story : Story} (hget : h.stories[i]? = some story) (now : Int) :
    (story.finish k now = story ∧ (i = o.number → o.span.closed = true)) ∨
      (i = o.number ∧ o.span.closed = false ∧ o.span = story.fresh ∧ story.carrier = some k ∧
        story.ended = none ∧ story.finish k now = { story with ended := some now }) := by
  obtain ⟨story', hget', hheld⟩ := hk.held k o ho
  by_cases hcase : story.carrier = some k ∧ story.ended = none
  · have hi : o.number = i := (hk.carried i story k hget hcase.1).own o ho
    subst hi
    obtain rfl : story = story' := Option.some.inj (hget.symm.trans hget')
    have hopen : o.span.closed = false := hheld.isOpen.mpr hcase
    exact .inr ⟨rfl, hopen, hheld.unchanged hopen, hcase.1, hcase.2, if_pos hcase⟩
  · refine .inl ⟨if_neg hcase, ?_⟩
    rintro rfl
    obtain rfl : story = story' := Option.some.inj (hget.symm.trans hget')
    rw [← Bool.not_eq_false, hheld.isOpen]
    exact hcase

section

variable {k : Nat} {o : Holder} {now : Int} {slot : Option Holder} {after : σ × List Call}

theorem told_settled (hk : Kept h) (ho : h.at? k = some o)
    (hafter : ∃ outcome, after.2 = o.span.lastGiven now outcome) {i : Nat} {story' : Story}
    (hget : (h.settled k o.number now slot after).stories[i]? = some story') :
    Told story' ((h.settled k o.number now slot after).callsOf i) := by
  obtain ⟨story, hold, rfl⟩ := stories_settled hget
  obtain ⟨outcome, hlast⟩ := hafter
  have htold := hk.told i story hold
  rw [callsOf_settled]
  rcases hk.finish_cases ho hold now with ⟨hfin, hclosed⟩ | ⟨rfl, hopen, hspan, hcar, hend, hfin⟩
  · have hnil : (if o.number = i then after.2 else []) = [] := by
      split
      next hi => rw [hlast, Span.lastGiven, if_pos (hclosed hi.symm)]
      next => rfl
    rw [hfin, hnil, List.append_nil]
    exact htold
  · have hmore : after.2.map Call.sent = story.sent (story.last now) := by
      rw [hlast, hspan]
      exact story.given_last now outcome
    have hdue : (h.callsOf o.number).map Call.sent = story.sent story.first := by
      rw [htold.due, Story.due_of_open hend]
    rw [if_pos rfl, hfin]
    refine ⟨?_, ?_, ?_⟩
    · rw [List.map_append, hdue, hmore]
      rfl
    · -- A silent span has no last record that could pass for a refused first one.
      rw [Call.refused_append]
      · exact htold.refused
      · intro hempty
        rw [hempty, List.map_nil] at hdue
        exact List.map_eq_nil_iff.mp (hmore.trans (story.sent_eq_nil hdue.symm))
    · intro hnone
      rw [hcar] at hnone
      exact absurd hnone (by simp)

theorem numbered_settled (hk : Kept h) (ho : h.at? k = some o) {e : Nat × Call}
    (he : e ∈ (h.settled k o.number now slot after).calls) :
    e.1 < (h.settled k o.number now slot after).stories.length := by
  show e.1 < (h.stories.map (Story.finish k now)).length
  rw [List.length_map]
  rcases List.mem_append.mp he with hold | hnew
  · exact hk.numbered e hold
  · obtain ⟨call, _, rfl⟩ := List.mem_map.mp hnew
    obtain ⟨story, hget, _⟩ := hk.held k o ho
    exact (List.getElem?_eq_some_iff.mp hget).1

theorem held_settled (hk : Kept h) (ho : h.at? k = some o)
    (hslot : ∀ o', slot = some o' → o'.number = o.number ∧ o'.span.closed = true) {j : Nat}
    {o' : Holder} (ho' : (h.settled k o.number now slot after).at? j = some o') :
    ∃ story, (h.settled k o.number now slot after).stories[o'.number]? = some story ∧
      Held story j o'.span := by
  rw [at?_settled (lt_of_at? ho)] at ho'
  by_cases hj : k = j
  · subst hj
    rw [if_pos rfl] at ho'
    obtain ⟨hnumber, hclosed⟩ := hslot o' ho'
    obtain ⟨story, hget, hheld⟩ := hk.held k o ho
    rw [hnumber]
    refine ⟨_, finished_settled hget, ⟨?_, ?_⟩⟩
    · refine ⟨fun hopen => absurd (hclosed.symm.trans hopen) (by simp), ?_⟩
      rintro ⟨hcar, hend⟩
      rcases hk.finish_cases ho hget now with ⟨hfin, hwas⟩ | ⟨_, _, _, _, _, hfin⟩
      · rw [hfin] at hcar hend
        rw [hclosed, ← hwas rfl]
        exact hheld.isOpen.mpr ⟨hcar, hend⟩
      · rw [hfin] at hend
        exact absurd hend (by simp)
    · exact fun hopen => absurd (hclosed.symm.trans hopen) (by simp)
  · rw [if_neg hj] at ho'
    obtain ⟨story, hget, hheld⟩ := hk.held j o' ho'
    refine ⟨_, finished_settled hget, ?_⟩
    rcases hk.finish_cases ho hget now with ⟨hfin, _⟩ | ⟨_, _, _, hcar, _, hfin⟩
    · rw [hfin]
      exact hheld
    · have hclosed : o'.span.closed ≠ false := by
        intro hopen
        exact hj (Option.some.inj (hcar.symm.trans (hheld.isOpen.mp hopen).1))
      refine ⟨⟨fun hopen => absurd hopen hclosed, ?_⟩, fun hopen => absurd hopen hclosed⟩
      rintro ⟨_, hend⟩
      rw [hfin] at hend
      exact absurd hend (by simp)

theorem carried_settled (hk : Kept h) (ho : h.at? k = some o)
    (hslot : ∀ o', slot = some o' → o'.number = o.number ∧ o'.span.closed = true) {i j : Nat}
    {story' : Story} (hget : (h.settled k o.number now slot after).stories[i]? = some story')
    (hcarrier : story'.carrier = some j) :
    Carried (h.settled k o.number now slot after) i story' j := by
  obtain ⟨story, hold, rfl⟩ := stories_settled hget
  rw [Story.carrier_finish] at hcarrier
  obtain ⟨hmade, hown, hgone⟩ := hk.carried i story j hold hcarrier
  have hlt : k < h.objects.length := lt_of_at? ho
  refine ⟨?_, ?_, ?_⟩
  · show j < (h.objects.set k slot).length
    rw [List.length_set]
    exact hmade
  · intro o' ho'
    rw [at?_settled hlt] at ho'
    by_cases hj : k = j
    · subst hj
      rw [if_pos rfl] at ho'
      rw [(hslot o' ho').1]
      exact hown o ho
    · rw [if_neg hj] at ho'
      exact hown o' ho'
  · intro hnone
    rw [at?_settled hlt] at hnone
    by_cases hj : k = j
    · subst hj
      rw [Story.finish]
      split
      next => exact Option.some_ne_none now
      next hcase => exact fun hend => hcase ⟨hcarrier, hend⟩
    · rw [if_neg hj] at hnone
      exact story.ended_finish k now (hgone hnone)

/-- Closing an object, or letting it go, gives the last record of a span that was open. -/
theorem settled (hk : Kept h) (ho : h.at? k = some o)
    (hslot : ∀ o', slot = some o' → o'.number = o.number ∧ o'.span.closed = true)
    (hafter : ∃ outcome, after.2 = o.span.lastGiven now outcome) :
    Kept (h.settled k o.number now slot after) where
  told _ _ hget := hk.told_settled ho hafter hget
  numbered _ he := hk.numbered_settled ho he
  held _ _ ho' := hk.held_settled ho hslot ho'
  carried _ _ _ hget hcarrier := hk.carried_settled ho hslot hget hcarrier

end

section

variable {k : Nat} {o : Holder}

theorem carrier_ne_length (hk : Kept h) {i : Nat} {story : Story}
    (hget : h.stories[i]? = some story) : story.carrier ≠ some h.objects.length := by
  intro hcar
  exact Nat.lt_irrefl _ (hk.carried i story _ hget hcar).made

theorem told_moved (hk : Kept h) {i : Nat} {story' : Story}
    (hget : (h.moved k o).stories[i]? = some story') :
    Told story' ((h.moved k o).callsOf i) := by
  obtain ⟨story, hold, rfl⟩ := stories_moved hget
  obtain ⟨hdue, hrefused, hidle⟩ := hk.told i story hold
  refine ⟨?_, ?_, ?_⟩
  · rw [Story.due_carry]
    exact hdue
  · rw [Story.carrier_carry_eq_none]
    exact hrefused
  · rw [Story.carrier_carry_eq_none, Story.ended_carry]
    exact hidle

theorem held_moved (hk : Kept h) (ho : h.at? k = some o) {j : Nat} {o' : Holder}
    (ho' : (h.moved k o).at? j = some o') :
    ∃ story, (h.moved k o).stories[o'.number]? = some story ∧ Held story j o'.span := by
  have hlt : k < h.objects.length := lt_of_at? ho
  obtain ⟨story, hget, hheld⟩ := hk.held k o ho
  rw [at?_moved ho] at ho'
  by_cases hnew : j = h.objects.length
  · rw [if_pos hnew] at ho'
    obtain rfl := Option.some.inj ho'
    have hcar : (story.carry k h.objects.length).carrier = some j ↔ story.carrier = some k := by
      rw [Story.carrier_carry, hnew]
      constructor
      · rintro (⟨hcar, _⟩ | ⟨_, hcar⟩)
        · exact hcar
        · exact absurd hcar (hk.carrier_ne_length hget)
      · exact fun hcar => .inl ⟨hcar, rfl⟩
    refine ⟨_, storied_moved hget, ?_, ?_⟩
    · rw [hheld.isOpen, Story.ended_carry, hcar]
    · rw [Story.fresh_carry]
      exact hheld.unchanged
  rw [if_neg hnew] at ho'
  by_cases hold : j = k
  · rw [if_pos hold] at ho'
    obtain rfl := Option.some.inj ho'
    have hclosed : o.span.leftover.closed = true := rfl
    refine ⟨_, storied_moved hget, ?_, fun hopen => absurd (hclosed.symm.trans hopen) (by simp)⟩
    refine ⟨fun hopen => absurd (hclosed.symm.trans hopen) (by simp), ?_⟩
    rintro ⟨hcar, _⟩
    rw [Story.carrier_carry, hold] at hcar
    rcases hcar with ⟨_, hlen⟩ | ⟨hne, hcar⟩
    · omega
    · exact absurd hcar hne
  · rw [if_neg hold] at ho'
    obtain ⟨story', hget', hheld'⟩ := hk.held j o' ho'
    have hcar : (story'.carry k h.objects.length).carrier = some j ↔ story'.carrier = some j := by
      rw [Story.carrier_carry]
      constructor
      · rintro (⟨_, hj⟩ | ⟨_, hj⟩)
        · exact absurd hj.symm hnew
        · exact hj
      · refine fun hj => .inr ⟨?_, hj⟩
        exact fun hcar => hold (Option.some.inj (hj.symm.trans hcar))
    refine ⟨_, storied_moved hget', ?_, ?_⟩
    · rw [hheld'.isOpen, hcar, Story.ended_carry]
    · rw [Story.fresh_carry]
      exact hheld'.unchanged

theorem carried_moved (hk : Kept h) (ho : h.at? k = some o) {i j : Nat} {story' : Story}
    (hget : (h.moved k o).stories[i]? = some story') (hcarrier : story'.carrier = some j) :
    Carried (h.moved k o) i story' j := by
  obtain ⟨story, hold, rfl⟩ := stories_moved hget
  have hlen := length_objects_moved (h := h) k o
  rcases (story.carrier_carry k _ j).mp hcarrier with ⟨hcar, rfl⟩ | ⟨hne, hcar⟩
  · have hat : (h.moved k o).at? h.objects.length = some o := by
      rw [at?_moved ho, if_pos rfl]
    refine ⟨by omega, ?_, ?_⟩
    · intro o' ho'
      rw [hat] at ho'
      obtain rfl := Option.some.inj ho'
      exact (hk.carried i story k hold hcar).own _ ho
    · intro hnone
      rw [hat] at hnone
      exact absurd hnone (by simp)
  · obtain ⟨hmade, hown, hgone⟩ := hk.carried i story j hold hcar
    have hj : j ≠ k := by
      rintro rfl
      exact hne hcar
    have hat : (h.moved k o).at? j = h.at? j := by
      rw [at?_moved ho, if_neg (by omega), if_neg hj]
    refine ⟨by omega, ?_, ?_⟩
    · rw [hat]
      exact hown
    · rw [hat, Story.ended_carry]
      exact hgone

/-- Moving an object takes its span into the new object, and what is left of it is closed. -/
theorem moved (hk : Kept h) (ho : h.at? k = some o) : Kept (h.moved k o) where
  told _ _ hget := hk.told_moved hget
  numbered e he := by
    show e.1 < (h.stories.map (Story.carry k h.objects.length)).length
    rw [List.length_map]
    exact hk.numbered e he
  held _ _ ho' := hk.held_moved ho ho'
  carried _ _ _ hget hcarrier := hk.carried_moved ho hget hcarrier

end

variable (around : Surroundings σ)

theorem told_begun {story : Story} (hended : story.ended = none) (w : σ)
    (hcar : story.carrier = none ↔
      ∃ failure, (story.fresh.emitIn around w story.first).2 = .error failure) :
    Told story (story.fresh.given story.first (story.fresh.emitIn around w story.first).2) where
  due := by
    rw [Story.given_first, Story.due_of_open hended]
  refused := by
    rw [Span.refused_given]
    exact hcar
  idle _ := hended

theorem begin (hk : Kept h) (r : Request) : Kept (h.act around (.begin r)) := by
  obtain ⟨s, hs⟩ : ∃ s, s =
    Span.fresh r.sink r.logger r.name r.fields r.level (around.clock h.world) := ⟨_, rfl⟩
  cases hout : (s.emitIn around h.world s.opening).2 with
  | error failure =>
    rw [act_begin_error around r hs hout, ← hout]
    subst hs
    refine hk.asked (told_begun around rfl h.world ?_) (.inl ⟨rfl, rfl⟩)
    exact ⟨fun _ => ⟨failure, hout⟩, fun _ => rfl⟩
  | ok u =>
    rw [act_begin_ok around r hs hout, ← show _ = Except.ok () from hout]
    subst hs
    refine hk.asked (told_begun around rfl h.world ?_) (.inr ⟨_, rfl, rfl, ?_⟩)
    · refine ⟨fun hnone => absurd hnone (by simp), ?_⟩
      rintro ⟨failure, herror⟩
      exact absurd (hout.symm.trans herror) (by simp)
    · exact ⟨⟨fun _ => ⟨rfl, rfl⟩, fun _ => rfl⟩, fun _ => rfl⟩

theorem close (hk : Kept h) (k : Nat) : Kept (h.act around (.close k)) := by
  cases ho : h.at? k with
  | none =>
    rw [act, ho]
    exact hk
  | some o =>
    obtain ⟨outcome, hclose⟩ := Span.closeIn_noting around h.world o.span
    rw [act_close around ho]
    refine hk.settled ho ?_ ⟨outcome, ?_⟩
    · intro o' hslot
      obtain rfl := Option.some.inj hslot
      exact ⟨rfl, Span.closed_closeIn around.noting _ o.span⟩
    · rw [hclose]

theorem release (hk : Kept h) (k : Nat) : Kept (h.act around (.release k)) := by
  rw [act]
  cases ho : h.at? k with
  | none => exact hk
  | some o =>
    obtain ⟨outcome, hrelease⟩ := Span.releaseIn_noting around h.world o.span
    refine hk.settled ho (fun o' hslot => absurd hslot (by simp)) ⟨outcome, ?_⟩
    rw [hrelease]

/-- Every act keeps the invariant, whether or not the sink takes the record. -/
theorem act (hk : Kept h) (a : Act σ) : Kept (h.act around a) := by
  cases a with
  | elsewhere change => exact hk.elsewhere (change h.world)
  | begin r => exact hk.begin around r
  | move k =>
    rw [History.act]
    cases ho : h.at? k with
    | none => exact hk
    | some o => exact hk.moved ho
  | close k => exact hk.close around k
  | release k => exact hk.release around k

end Kept

/-! ### Whole runs -/

variable (around : Surroundings σ)

theorem kept_run {h : History σ} (hk : Kept h) (acts : List (Act σ)) :
    Kept (h.run around acts) := by
  induction acts generalizing h with
  | nil => exact hk
  | cons a acts ih => exact ih (hk.act around a)

/-- **The records of spans**, after any acts in any world.

For every span that was asked for: its sinks were given what is due, no more and no less and in
this order; it was begun unless its first record was refused, and never ended if it was not begun;
if it was begun and all of its objects are let go, it has ended.  No other records were given.

For every object: it is open where it is the carrier of a span that has not ended; and after its
close, whatever came of that, it is there and closed, and nothing comes of letting it go. -/
theorem records_of_every_span (w : σ) (acts : List (Act σ)) :
    let h := run around { world := w } acts
    (∀ i story, h.stories[i]? = some story →
      (h.callsOf i).map Call.sent = story.due ∧
      (story.carrier = none ↔ Call.Refused (h.callsOf i)) ∧
      (story.carrier = none → story.ended = none) ∧
      (story.carrier ≠ none → (∀ k o, h.at? k = some o → o.number ≠ i) → story.ended ≠ none)) ∧
    (∀ e ∈ h.calls, e.1 < h.stories.length) ∧
    (∀ k o, h.at? k = some o →
      (∃ story, h.stories[o.number]? = some story ∧
        (o.span.closed = false ↔ story.carrier = some k ∧ story.ended = none)) ∧
      ∃ s, (h.act around (.close k)).at? k = some ⟨o.number, s⟩ ∧ s.closed = true ∧
        ∀ w', s.releaseIn around w' = (w', .ok ())) := by
  intro h
  have hk : Kept h := kept_run around (Kept.start w) acts
  refine ⟨?_, hk.numbered, ?_⟩
  · intro i story hget
    obtain ⟨hdue, hrefused, hidle⟩ := hk.told i story hget
    refine ⟨hdue, hrefused, hidle, ?_⟩
    intro hbegun hgone
    obtain ⟨k, hcar⟩ := Option.ne_none_iff_exists'.mp hbegun
    obtain ⟨_, hown, hended⟩ := hk.carried i story k hget hcar
    apply hended
    cases ho : h.at? k with
    | none => rfl
    | some o => exact absurd (hown o ho) (hgone k o ho)
  · intro k o ho
    obtain ⟨story, hget, hheld⟩ := hk.held k o ho
    have hclosed := Span.closed_closeIn around.noting (h.world, []) o.span
    refine ⟨⟨story, hget, hheld.isOpen⟩, _, ?_, hclosed, ?_⟩
    · rw [act_close around ho, at?_settled (lt_of_at? ho), if_pos rfl]
    · exact fun w' => Span.releaseIn_of_closed around w' hclosed

/-- A span that is moved is closed where the new object is let go, 65 seconds after it was begun. -/
example :
    let around : Surroundings Int :=
      { emit := fun now _ _ _ => (now, .ok ()), clock := fun now => now,
        complain := fun now _ => now }
    let h := run around { world := 7 }
      [.begin ⟨some 0, ascii "app", ascii "Work", [], .info⟩, .move 0, .close 0, .release 0,
        .elsewhere (· + 65000000999), .release 1]
    (h.callsOf 0).map (·.record.message) = [ascii "Work [+]", ascii "Work [1:05.000]"] := by
  decide

end History

end TraceContract
