import TraceContract.Span

/-!
# What spans give to sinks

The code of `Span` gives records to sinks and asks the clock of any surroundings.  To speak of what
it gives, the surroundings take it down: `Surroundings.noting`.

* `Span.emitIn_noting` and the lemmas after it: what each piece of the code gives to sinks.  What it
  does besides is what it does where nothing is taken down.
* `Span.refused_given`: a record that was refused was given.
-/

namespace TraceContract

/-! ### Taking down what sinks are given -/

/-- A record given to a sink, and what came of it. -/
structure Call where
  sink : Handle
  logger : Text
  record : Record
  outcome : Except Failure Unit

namespace Call

def sent (c : Call) : Handle × Text × Record := (c.sink, c.logger, c.record)

/-- The first of some records was refused. -/
def Refused (calls : List Call) : Prop :=
  ∃ call failure, calls.head? = some call ∧ call.outcome = .error failure

theorem refused_append {calls more : List Call} (h : calls = [] → more = []) :
    Refused (calls ++ more) ↔ Refused calls := by
  cases calls with
  | nil => rw [h rfl]; exact Iff.rfl
  | cons call calls => exact Iff.rfl

/-- The records, of those that were marked with numbers, that are marked with one number. -/
def about (calls : List (Nat × Call)) (i : Nat) : List Call :=
  (calls.filter fun entry => entry.1 = i).map Prod.snd

theorem about_append (calls more : List (Nat × Call)) (i : Nat) :
    about (calls ++ more) i = about calls i ++ about more i := by
  simp [about]

theorem about_marked (n : Nat) (more : List Call) (i : Nat) :
    about (more.map (Prod.mk n)) i = if n = i then more else [] := by
  induction more with
  | nil => simp [about]
  | cons call more ih =>
    by_cases hn : n = i
    · simp only [hn, if_pos] at ih ⊢
      rw [List.map_cons, about, List.filter_cons_of_pos (by simp), List.map_cons]
      exact congrArg (call :: ·) ih
    · simp only [hn, if_false] at ih ⊢
      rw [List.map_cons, about, List.filter_cons_of_neg (by simpa using hn)]
      exact ih

theorem about_eq_nil {calls : List (Nat × Call)} {i : Nat} (h : ∀ e ∈ calls, e.1 < i) :
    about calls i = [] := by
  rw [about, List.filter_eq_nil_iff.mpr, List.map_nil]
  intro e he
  have hlt := h e he
  simp only [decide_eq_true_eq]
  omega

end Call

namespace Surroundings

/-- The same surroundings, with a list of the records that were given to sinks. -/
def noting {σ : Type} (around : Surroundings σ) : Surroundings (σ × List Call) where
  emit w h logger r :=
    let after := around.emit w.1 h logger r
    ((after.1, w.2 ++ [⟨h, logger, r, after.2⟩]), after.2)
  clock w := around.clock w.1
  complain w text := (around.complain w.1 text, w.2)

end Surroundings

namespace Span

variable {σ : Type} (around : Surroundings σ)

def given (s : Span) (message : Text) (outcome : Except Failure Unit) : List Call :=
  match s.sink with
  | none => []
  | some h => if s.level = .none then [] else [⟨h, s.logger, s.record message, outcome⟩]

theorem emitIn_noting (s : Span) (w : σ) (calls : List Call) (message : Text) :
    s.emitIn around.noting (w, calls) message =
      (((s.emitIn around w message).1,
        calls ++ s.given message (s.emitIn around w message).2),
        (s.emitIn around w message).2) := by
  rw [emitIn, emitIn, given]
  cases s.sink with
  | none => simp
  | some h =>
    by_cases hl : s.level = .none
    · simp [hl]
    · simp [hl, Surroundings.noting]

theorem refused_given (s : Span) (w : σ) (message : Text) :
    Call.Refused (s.given message (s.emitIn around w message).2) ↔
      ∃ failure, (s.emitIn around w message).2 = .error failure := by
  rw [emitIn, given]
  cases s.sink with
  | none => simp [Call.Refused]
  | some h =>
    by_cases hl : s.level = .none
    · simp [hl, Call.Refused]
    · simp [hl, Call.Refused]

def fresh (sink : Option Handle) (logger name : Text) (fields : Fields) (level : Level)
    (started : Int) : Span := { sink, logger, name, fields, level, started }

def endedAt (s : Span) (now : Int) : Span :=
  { s with closed := true, elapsed := Elapsed.ofNanoseconds (now - s.started) }

def lastGiven (s : Span) (now : Int) (outcome : Except Failure Unit) : List Call :=
  if s.closed then [] else (s.endedAt now).given (s.endedAt now).closing outcome

theorem beginIn_eq (w : σ) (sink : Option Handle) (logger name : Text) (fields : Fields)
    (level : Level) {s : Span} (hs : s = fresh sink logger name fields level (around.clock w)) :
    beginIn around w sink logger name fields level =
      ((s.emitIn around w s.opening).1, (s.emitIn around w s.opening).2.map fun _ => s) := by
  subst hs
  rw [beginIn]
  split
  next w' failure heq => rw [fresh, heq]; rfl
  next w' heq => rw [fresh, heq]; rfl

theorem closeIn_of_open (w : σ) {s : Span} (h : s.closed = false) :
    s.closeIn around w =
      (((s.endedAt (around.clock w)).emitIn around w (s.endedAt (around.clock w)).closing).1,
        s.endedAt (around.clock w),
        ((s.endedAt (around.clock w)).emitIn around w (s.endedAt (around.clock w)).closing).2) := by
  rw [closeIn, if_neg (by simp [h])]
  rfl

theorem closeIn_of_closed (w : σ) {s : Span} (h : s.closed = true) :
    s.closeIn around w = (w, s, .ok ()) := by
  rw [closeIn, if_pos h]

theorem releaseIn_of_closed (w : σ) {s : Span} (h : s.closed = true) :
    s.releaseIn around w = (w, .ok ()) := by
  rw [releaseIn, closeIn_of_closed around w h]

/-- A span is closed after its close, whatever came of the record. -/
theorem closed_closeIn (w : σ) (s : Span) : (s.closeIn around w).2.1.closed = true := by
  cases h : s.closed with
  | true => rw [closeIn_of_closed around w h]; exact h
  | false => rw [closeIn_of_open around w h]; rfl

theorem closeIn_noting (w : σ) (s : Span) :
    ∃ outcome, s.closeIn around.noting (w, []) =
      (((s.closeIn around w).1, s.lastGiven (around.clock w) outcome),
        (s.closeIn around w).2) := by
  cases h : s.closed with
  | true =>
    refine ⟨.ok (), ?_⟩
    rw [closeIn_of_closed around.noting _ h, closeIn_of_closed around w h, lastGiven, if_pos h]
  | false =>
    have hclock : around.noting.clock (w, []) = around.clock w := rfl
    refine ⟨((s.endedAt (around.clock w)).emitIn around w
      (s.endedAt (around.clock w)).closing).2, ?_⟩
    rw [closeIn_of_open around.noting _ h, closeIn_of_open around w h, hclock, emitIn_noting,
      lastGiven, if_neg (by simp [h]), List.nil_append]

theorem releaseIn_noting (w : σ) (s : Span) :
    ∃ outcome, s.releaseIn around.noting (w, []) =
      (((s.releaseIn around w).1, s.lastGiven (around.clock w) outcome),
        (s.releaseIn around w).2) := by
  obtain ⟨outcome, hclose⟩ := closeIn_noting around w s
  refine ⟨outcome, ?_⟩
  rw [releaseIn, releaseIn, hclose]
  rcases s.closeIn around w with ⟨w', s', failure | u⟩
  · simp only
    cases s.complaint failure with
    | error fatal => rfl
    | ok text => rfl
  · rfl

theorem beginIn_noting (w : σ) (sink : Option Handle) (logger name : Text) (fields : Fields)
    (level : Level) {s : Span} (hs : s = fresh sink logger name fields level (around.clock w)) :
    beginIn around.noting (w, []) sink logger name fields level =
      (((s.emitIn around w s.opening).1, s.given s.opening (s.emitIn around w s.opening).2),
        (s.emitIn around w s.opening).2.map fun _ => s) := by
  rw [beginIn_eq around.noting (w, []) sink logger name fields level hs, emitIn_noting,
    List.nil_append]

end Span

end TraceContract
