import TraceContract.Proofs.Span.Noting
import Mathlib.Data.List.Basic

/-!
# Histories of spans

A program begins spans, moves them from object to object, closes them, and lets objects go, in any
order, while the clock and everything else in the world changes as it likes between two of these
acts and the sink refuses whatever records it likes.  A `History` runs the code of `Span` through
such acts and takes down every record that the code gives to a sink.  Beside it stands, for each
span, its `Story`: which object was begun or moved into last, and when that object was first closed
or let go, told from the acts alone.

* `Story.due` is what the sink of a span should be given, by its story.
* `History.act` is one act and `History.run` a row of them.
* `History.stories_asked`, `History.at?_settled`, `History.at?_moved` and their like: what an act
  does to stories, objects and records.
-/

namespace TraceContract

/-! ### What a span should give -/

/-- What one asks for where one begins a span. -/
structure Request where
  sink : Option Handle
  logger : Text
  name : Text
  fields : Fields
  level : Level

namespace Request

/-- What is to be given to the sink with a message: nothing where there is no sink or no level. -/
def sent (r : Request) (message : Text) : List (Handle × Text × Record) :=
  match r.sink with
  | none => []
  | some h =>
    if r.level = .none then []
    else [(h, r.logger, { message := message, fields := r.fields, level := r.level })]

end Request

/-- What became of a span, told by what was done with the objects that held it. -/
structure Story extends Request where
  started : Int
  /-- The object that it was begun in or moved into last.  There is none where it was not begun,
  because its first record was refused. -/
  carrier : Option Nat
  /-- The clock where its carrier was first closed or let go. -/
  ended : Option Int := none

namespace Story

def first (story : Story) : Text := story.name ++ ascii " [+]"

/-- The message of the record at the end, the milliseconds truncated. -/
def last (story : Story) (now : Int) : Text :=
  story.name ++ ascii " [" ++ Elapsed.text ((now - story.started).tdiv 1000000) ++ ascii "]"

/-- All that is to be given to the sink, in this order. -/
def due (story : Story) : List (Handle × Text × Record) :=
  story.sent story.first ++
    match story.ended with
    | none => []
    | some now => story.sent (story.last now)

def carry (k m : Nat) (story : Story) : Story :=
  if story.carrier = some k then { story with carrier := some m } else story

def finish (k : Nat) (now : Int) (story : Story) : Story :=
  if story.carrier = some k ∧ story.ended = none then { story with ended := some now } else story

def fresh (story : Story) : Span :=
  Span.fresh story.sink story.logger story.name story.fields story.level story.started

variable (story : Story)

theorem given_first (outcome : Except Failure Unit) :
    (story.fresh.given story.first outcome).map Call.sent = story.sent story.first := by
  cases hs : story.sink with
  | none => simp [Span.given, Request.sent, fresh, Span.fresh, hs]
  | some h =>
    by_cases hl : story.level = .none
    · simp [Span.given, Request.sent, fresh, Span.fresh, hs, hl]
    · simp [Span.given, Request.sent, fresh, Span.fresh, hs, hl, Call.sent, Span.record]

theorem given_last (now : Int) (outcome : Except Failure Unit) :
    (story.fresh.lastGiven now outcome).map Call.sent = story.sent (story.last now) := by
  have hopen : story.fresh.closed = false := rfl
  have hclosing : (story.fresh.endedAt now).closing = story.last now := rfl
  rw [Span.lastGiven, if_neg (by simp [hopen]), hclosing]
  cases hs : story.sink with
  | none => simp [Span.given, Request.sent, fresh, Span.fresh, Span.endedAt, hs]
  | some h =>
    by_cases hl : story.level = .none
    · simp [Span.given, Request.sent, fresh, Span.fresh, Span.endedAt, hs, hl]
    · simp [Span.given, Request.sent, fresh, Span.fresh, Span.endedAt, hs, hl, Call.sent,
        Span.record]

/-- A span gives a last record only where it gave a first one. -/
theorem sent_eq_nil {message message' : Text} (h : story.sent message = []) :
    story.sent message' = [] := by
  rw [Request.sent] at h ⊢
  cases hs : story.sink with
  | none => rfl
  | some sink =>
    by_cases hl : story.level = .none
    · simp [hl]
    · simp [hs, hl] at h

theorem due_of_open {story : Story} (h : story.ended = none) :
    story.due = story.sent story.first := by
  rw [due, h, List.append_nil]

theorem carrier_carry (k m j : Nat) : (story.carry k m).carrier = some j ↔
    (story.carrier = some k ∧ m = j) ∨ (story.carrier ≠ some k ∧ story.carrier = some j) := by
  rw [carry]
  by_cases h : story.carrier = some k
  · simp [h]
  · simp [h]

theorem carrier_carry_eq_none (k m : Nat) :
    (story.carry k m).carrier = none ↔ story.carrier = none := by
  rw [carry]
  by_cases h : story.carrier = some k
  · simp [h]
  · simp [h]

@[simp] theorem ended_carry (k m : Nat) : (story.carry k m).ended = story.ended := by
  rw [carry]
  split
  · rfl
  · rfl

@[simp] theorem due_carry (k m : Nat) : (story.carry k m).due = story.due := by
  rw [carry]
  split
  · rfl
  · rfl

@[simp] theorem fresh_carry (k m : Nat) : (story.carry k m).fresh = story.fresh := by
  rw [carry]
  split
  · rfl
  · rfl

@[simp] theorem carrier_finish (k : Nat) (now : Int) :
    (story.finish k now).carrier = story.carrier := by
  rw [finish]
  split
  · rfl
  · rfl

theorem ended_finish (k : Nat) (now : Int) (h : story.ended ≠ none) :
    (story.finish k now).ended ≠ none := by
  rw [finish, if_neg (fun hfin => h hfin.2)]
  exact h

end Story

/-! ### Runs -/

/-- An object that holds a span, or what was left where the span was moved. -/
structure Holder where
  /-- The number of the span, counted from the first that was asked for. -/
  number : Nat
  span : Span

/-- What happens to a world with spans.  Objects are counted from the first that was made. -/
inductive Act (σ : Type) where
  /-- Something that is not about spans, such as the passing of time. -/
  | elsewhere (change : σ → σ)
  | begin (r : Request)
  | move (k : Nat)
  | close (k : Nat)
  | release (k : Nat)

/-- A world, its spans, and all that was given to sinks by them. -/
structure History (σ : Type) where
  world : σ
  /-- The objects; one that was let go is none. -/
  objects : List (Option Holder) := []
  stories : List Story := []
  /-- The records given to sinks, each with the number of its span. -/
  calls : List (Nat × Call) := []

namespace History

variable {σ : Type}

def at? (h : History σ) (k : Nat) : Option Holder := h.objects[k]?.join

def callsOf (h : History σ) (i : Nat) : List Call := Call.about h.calls i

/-- After something was asked for: the story, the object if there is one, and what was given. -/
def asked (h : History σ) (story : Story) (slot : List (Option Holder)) (after : σ × List Call) :
    History σ where
  world := after.1
  objects := h.objects ++ slot
  stories := h.stories ++ [story]
  calls := h.calls ++ after.2.map (Prod.mk h.stories.length)

/-- After the object `k`, which held a span of this number, was closed or let go. -/
def settled (h : History σ) (k number : Nat) (now : Int) (slot : Option Holder)
    (after : σ × List Call) : History σ where
  world := after.1
  objects := h.objects.set k slot
  stories := h.stories.map (Story.finish k now)
  calls := h.calls ++ after.2.map (Prod.mk number)

def moved (h : History σ) (k : Nat) (o : Holder) : History σ where
  world := h.world
  objects := h.objects.set k (some ⟨o.number, o.span.leftover⟩) ++ [some o]
  stories := h.stories.map (Story.carry k h.objects.length)
  calls := h.calls

/-- One act.  What is done to an object that is not there is not done. -/
def act (around : Surroundings σ) (h : History σ) : Act σ → History σ
  | .elsewhere change => { h with world := change h.world }
  | .begin r =>
    let now := around.clock h.world
    match Span.beginIn around.noting (h.world, []) r.sink r.logger r.name r.fields r.level with
    | (after, .error _) => h.asked ⟨r, now, none, none⟩ [] after
    | (after, .ok s) =>
      h.asked ⟨r, now, some h.objects.length, none⟩ [some ⟨h.stories.length, s⟩] after
  | .move k =>
    match h.at? k with
    | none => h
    | some o => h.moved k o
  | .close k =>
    match h.at? k with
    | none => h
    | some o =>
      let result := o.span.closeIn around.noting (h.world, [])
      h.settled k o.number (around.clock h.world) (some ⟨o.number, result.2.1⟩) result.1
  | .release k =>
    match h.at? k with
    | none => h
    | some o =>
      h.settled k o.number (around.clock h.world) none
        (o.span.releaseIn around.noting (h.world, [])).1

def run (around : Surroundings σ) (h : History σ) (acts : List (Act σ)) : History σ :=
  acts.foldl (act around) h

/-! ### What the acts do to objects, stories and records -/

section

variable {h : History σ}

theorem lt_of_at? {k : Nat} {o : Holder} (ho : h.at? k = some o) : k < h.objects.length := by
  by_contra hge
  rw [at?, List.getElem?_eq_none (by omega)] at ho
  exact absurd ho (by simp)

theorem getElem?_of_at? {k : Nat} {o : Holder} (ho : h.at? k = some o) :
    h.objects[k]? = some (some o) := by
  rw [at?] at ho
  cases hget : h.objects[k]? with
  | none => rw [hget] at ho; exact absurd ho (by simp)
  | some slot => rw [hget] at ho; exact congrArg some ho

theorem stories_asked {story story' : Story} {slot : List (Option Holder)}
    {after : σ × List Call} {i : Nat}
    (hget : (h.asked story slot after).stories[i]? = some story') :
    h.stories[i]? = some story' ∨ i = h.stories.length ∧ story' = story := by
  have happ : (h.stories ++ [story])[i]? = some story' := hget
  rcases Nat.lt_trichotomy i h.stories.length with hlt | heq | hgt
  · rw [List.getElem?_append_left hlt] at happ
    exact .inl happ
  · subst heq
    rw [List.getElem?_concat_length] at happ
    exact .inr ⟨rfl, (Option.some.inj happ).symm⟩
  · rw [List.getElem?_eq_none (by simp; omega)] at happ
    exact absurd happ (by simp)

theorem stories_asked_of_lt {story story' : Story} {slot : List (Option Holder)}
    {after : σ × List Call} {i : Nat} (hget : h.stories[i]? = some story') :
    (h.asked story slot after).stories[i]? = some story' := by
  have hlt : i < h.stories.length := (List.getElem?_eq_some_iff.mp hget).1
  show (h.stories ++ [story])[i]? = some story'
  rw [List.getElem?_append_left hlt, hget]

theorem at?_asked_of_lt {story : Story} {slot : List (Option Holder)} {after : σ × List Call}
    {k : Nat} (hk : k < h.objects.length) : (h.asked story slot after).at? k = h.at? k := by
  show (h.objects ++ slot)[k]?.join = h.objects[k]?.join
  rw [List.getElem?_append_left hk]

theorem at?_asked {story : Story} {slot : List (Option Holder)} {after : σ × List Call}
    {k : Nat} {o : Holder} (ho : (h.asked story slot after).at? k = some o) :
    h.at? k = some o ∨ h.objects.length ≤ k ∧ slot[k - h.objects.length]? = some (some o) := by
  by_cases hk : k < h.objects.length
  · rw [at?_asked_of_lt hk] at ho
    exact .inl ho
  · have hget : (h.objects ++ slot)[k]? = some (some o) := getElem?_of_at? ho
    rw [List.getElem?_append_right (by omega)] at hget
    exact .inr ⟨by omega, hget⟩

theorem callsOf_asked (story : Story) (slot : List (Option Holder)) (after : σ × List Call)
    (i : Nat) : (h.asked story slot after).callsOf i =
      h.callsOf i ++ if h.stories.length = i then after.2 else [] := by
  rw [callsOf, asked, Call.about_append, Call.about_marked, callsOf]

theorem at?_settled {k j number : Nat} {now : Int} {slot : Option Holder}
    {after : σ × List Call} (hk : k < h.objects.length) :
    (h.settled k number now slot after).at? j = if k = j then slot else h.at? j := by
  show (h.objects.set k slot)[j]?.join = _
  by_cases hj : k = j
  · subst hj
    rw [List.getElem?_set_self hk, if_pos rfl]
    rfl
  · rw [List.getElem?_set_ne hj, if_neg hj, at?]

theorem stories_settled {k number i : Nat} {now : Int} {slot : Option Holder}
    {after : σ × List Call} {story' : Story}
    (hget : (h.settled k number now slot after).stories[i]? = some story') :
    ∃ story, h.stories[i]? = some story ∧ story.finish k now = story' := by
  have hmap : (h.stories.map (Story.finish k now))[i]? = some story' := hget
  rw [List.getElem?_map] at hmap
  exact Option.map_eq_some_iff.mp hmap

theorem finished_settled {k number i : Nat} {now : Int} {slot : Option Holder}
    {after : σ × List Call} {story : Story} (hget : h.stories[i]? = some story) :
    (h.settled k number now slot after).stories[i]? = some (story.finish k now) := by
  show (h.stories.map (Story.finish k now))[i]? = _
  rw [List.getElem?_map, hget]
  rfl

theorem callsOf_settled (k number : Nat) (now : Int) (slot : Option Holder)
    (after : σ × List Call) (i : Nat) : (h.settled k number now slot after).callsOf i =
      h.callsOf i ++ if number = i then after.2 else [] := by
  rw [callsOf, settled, Call.about_append, Call.about_marked, callsOf]

theorem stories_moved {k i : Nat} {o : Holder} {story' : Story}
    (hget : (h.moved k o).stories[i]? = some story') :
    ∃ story, h.stories[i]? = some story ∧ story.carry k h.objects.length = story' := by
  have hmap : (h.stories.map (Story.carry k h.objects.length))[i]? = some story' := hget
  rw [List.getElem?_map] at hmap
  exact Option.map_eq_some_iff.mp hmap

theorem storied_moved {k i : Nat} {o : Holder} {story : Story}
    (hget : h.stories[i]? = some story) :
    (h.moved k o).stories[i]? = some (story.carry k h.objects.length) := by
  show (h.stories.map (Story.carry k h.objects.length))[i]? = _
  rw [List.getElem?_map, hget]
  rfl

theorem length_objects_moved (k : Nat) (o : Holder) :
    (h.moved k o).objects.length = h.objects.length + 1 := by
  rw [moved, List.length_append, List.length_set, List.length_singleton]

theorem at?_moved {k j : Nat} {o : Holder} (ho : h.at? k = some o) :
    (h.moved k o).at? j =
      if j = h.objects.length then some o
      else if j = k then some ⟨o.number, o.span.leftover⟩ else h.at? j := by
  have hk := lt_of_at? ho
  show (h.objects.set k (some ⟨o.number, o.span.leftover⟩) ++ [some o])[j]?.join = _
  rcases Nat.lt_trichotomy j h.objects.length with hlt | heq | hgt
  · rw [List.getElem?_append_left (by simpa using hlt), if_neg (by omega)]
    by_cases hj : j = k
    · subst hj
      rw [List.getElem?_set_self hk, if_pos rfl]
      rfl
    · rw [List.getElem?_set_ne (Ne.symm hj), if_neg hj, at?]
  · subst heq
    rw [List.getElem?_append_right (by simp), if_pos rfl]
    simp
  · rw [List.getElem?_eq_none (by simp; omega), if_neg (by omega), if_neg (by omega), at?,
      List.getElem?_eq_none (by omega)]

variable (around : Surroundings σ)

theorem act_begin_error (r : Request) {s : Span} {failure : Failure}
    (hs : s = Span.fresh r.sink r.logger r.name r.fields r.level (around.clock h.world))
    (hout : (s.emitIn around h.world s.opening).2 = .error failure) :
    h.act around (.begin r) = h.asked ⟨r, around.clock h.world, none, none⟩ []
      ((s.emitIn around h.world s.opening).1, s.given s.opening (.error failure)) := by
  rw [act, Span.beginIn_noting around h.world _ _ _ _ _ hs, hout]
  rfl

theorem act_begin_ok (r : Request) {s : Span}
    (hs : s = Span.fresh r.sink r.logger r.name r.fields r.level (around.clock h.world))
    (hout : (s.emitIn around h.world s.opening).2 = .ok ()) :
    h.act around (.begin r) =
      h.asked ⟨r, around.clock h.world, some h.objects.length, none⟩ [some ⟨h.stories.length, s⟩]
        ((s.emitIn around h.world s.opening).1, s.given s.opening (.ok ())) := by
  rw [act, Span.beginIn_noting around h.world _ _ _ _ _ hs, hout]
  rfl

theorem act_close {k : Nat} {o : Holder} (ho : h.at? k = some o) :
    h.act around (.close k) = h.settled k o.number (around.clock h.world)
      (some ⟨o.number, (o.span.closeIn around.noting (h.world, [])).2.1⟩)
      (o.span.closeIn around.noting (h.world, [])).1 := by
  rw [act, ho]

end

end History

end TraceContract
