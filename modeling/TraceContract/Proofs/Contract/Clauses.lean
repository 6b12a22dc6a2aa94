import TraceContract.Declaration
import Mathlib.Data.List.Basic
import Mathlib.Data.List.Induction

/-!
# What the clauses of an operation amount to

An operation is declared by clauses on three subjects, in any order and as often as one likes:

    level         the last clause counts, with its level and its template,
    parameters    all clauses count, in order, and number the parameters,
    handback      the last clause counts.

A clause says nothing on the other two subjects.  So clauses on different subjects can change
places, and the declaration is made from the three rows of clauses alone.

* `OperationDecl.lastLevel`, `OperationDecl.listed` and `OperationDecl.lastHandback` are what is
  left of the three rows.
* `OperationDecl.ofClauses_eq`: the declaration is made from these.  The induction takes the last
  clause off, which is the one that was read last.
* `OperationDecl.add_comm`: two clauses on different subjects can be added in either order.
* `OperationDecl.gathers_clauses`: which clauses make the same declaration, and what its parts are.
-/

namespace TraceContract

namespace Clause

inductive Subject where
  | level | parameters | handback
  deriving DecidableEq

def subject : Clause → Subject
  | .level _ _ => .level
  | .parameter _ _ _ => .parameters
  | .handsBack _ _ => .handback

def level? : Clause → Option (Level × Text)
  | .level l template => some (l, template)
  | _ => none

def parameter? : Clause → Option (Text × Kind × Text)
  | .parameter name kind typeName => some (name, kind, typeName)
  | _ => none

def handback? : Clause → Option (Handback × Text)
  | .handsBack handback typeName => some (handback, typeName)
  | _ => none

variable {c : Clause}

theorem level?_eq_none_iff : c.level? = none ↔ c.subject ≠ .level := by
  cases c <;> simp [level?, subject]

theorem parameter?_eq_none_iff : c.parameter? = none ↔ c.subject ≠ .parameters := by
  cases c <;> simp [parameter?, subject]

theorem handback?_eq_none_iff : c.handback? = none ↔ c.subject ≠ .handback := by
  cases c <;> simp [handback?, subject]

section

variable {α : Type} {read : Clause → Option α}

theorem filterMap_filter_subject {subject : Subject}
    (h : ∀ c : Clause, read c = none ↔ c.subject ≠ subject) (clauses : List Clause) :
    (clauses.filter (·.subject = subject)).filterMap read = clauses.filterMap read := by
  rw [List.filterMap_filter]
  refine congrArg (clauses.filterMap ·) (funext fun c => ?_)
  by_cases hc : c.subject = subject
  · rw [if_pos (decide_eq_true hc)]
  · rw [if_neg (by simpa using hc), (h c).mpr hc]

theorem filterMap_concat (clauses : List Clause) {c : Clause} (hc : read c = none) :
    (clauses ++ [c]).filterMap read = clauses.filterMap read := by
  rw [List.filterMap_append, List.filterMap_cons_none hc, List.filterMap_nil, List.append_nil]

theorem getLast?_filterMap (read : Clause → Option α) {before after : List Clause} {c : Clause}
    {a : α} (hc : read c = some a) (hafter : ∀ d ∈ after, read d = none) :
    ((before ++ c :: after).filterMap read).getLast? = some a := by
  rw [List.filterMap_append, List.filterMap_cons_some hc, List.filterMap_eq_nil_iff.mpr hafter]
  exact List.getLast?_concat

end

end Clause

namespace OperationDecl

/-! ### The three rows -/

def lastLevel (clauses : List Clause) : Option (Level × Text) :=
  (clauses.filterMap Clause.level?).getLast?

def listed (clauses : List Clause) : List (Text × Kind × Text) :=
  clauses.filterMap Clause.parameter?

/-- What is handed back by the last clause on it; without one it is nothing. -/
def lastHandback (clauses : List Clause) : Handback × Text :=
  (clauses.filterMap Clause.handback?).getLast?.getD (.nothing, [])

def placed (parameters : List (Text × Kind × Text)) : List Parameter :=
  parameters.mapIdx fun i (name, kind, typeName) => ⟨name, kind, i, typeName⟩

def unplaced (p : Parameter) : Text × Kind × Text := (p.name, p.kind, p.typeName)

variable {name : Text} {clauses others before after : List Clause} {c : Clause}

theorem getElem?_placed {parameters : List (Text × Kind × Text)} {i : Nat} {p : Parameter} :
    (placed parameters)[i]? = some p ↔ parameters[i]? = some (unplaced p) ∧ p.position = i := by
  obtain ⟨name, kind, position, typeName⟩ := p
  rw [placed, List.getElem?_mapIdx, Option.map_eq_some_iff]
  constructor
  · rintro ⟨⟨name, kind, typeName⟩, hi, hp⟩
    obtain ⟨rfl, rfl, rfl, rfl⟩ := Parameter.mk.inj hp
    exact ⟨hi, rfl⟩
  · rintro ⟨hi, rfl⟩
    exact ⟨(name, kind, typeName), hi, rfl⟩

theorem length_placed (parameters : List (Text × Kind × Text)) :
    (placed parameters).length = parameters.length :=
  List.length_mapIdx

theorem placed_concat (parameters : List (Text × Kind × Text)) (name : Text) (kind : Kind)
    (typeName : Text) :
    placed (parameters ++ [(name, kind, typeName)]) =
      placed parameters ++ [⟨name, kind, (placed parameters).length, typeName⟩] := by
  rw [length_placed]
  exact List.mapIdx_concat

theorem map_placed (parameters : List (Text × Kind × Text)) :
    (placed parameters).map unplaced = parameters := by
  refine List.ext_getElem? fun i => ?_
  rw [List.getElem?_map, placed, List.getElem?_mapIdx, Option.map_map]
  exact Option.map_id'

theorem lastLevel_eq_none_iff :
    lastLevel clauses = none ↔ ∀ c ∈ clauses, c.subject ≠ .level := by
  rw [lastLevel, List.getLast?_eq_none_iff, List.filterMap_eq_nil_iff]
  simp only [Clause.level?_eq_none_iff]

theorem lastLevel_eq (level : Level) (template : Text) (h : ∀ c ∈ after, c.subject ≠ .level) :
    lastLevel (before ++ .level level template :: after) = some (level, template) :=
  Clause.getLast?_filterMap Clause.level? rfl
    fun c hc => Clause.level?_eq_none_iff.mpr (h c hc)

theorem lastLevel_concat (clauses : List Clause) (c : Clause) (h : c.subject ≠ .level) :
    lastLevel (clauses ++ [c]) = lastLevel clauses := by
  rw [lastLevel, Clause.filterMap_concat clauses (Clause.level?_eq_none_iff.mpr h), lastLevel]

theorem listed_concat (clauses : List Clause) (c : Clause) (h : c.subject ≠ .parameters) :
    listed (clauses ++ [c]) = listed clauses :=
  Clause.filterMap_concat clauses (Clause.parameter?_eq_none_iff.mpr h)

theorem listed_concat_parameter (name : Text) (kind : Kind) (typeName : Text) :
    listed (clauses ++ [.parameter name kind typeName]) =
      listed clauses ++ [(name, kind, typeName)] :=
  List.filterMap_append

theorem lastHandback_of_none (h : ∀ c ∈ clauses, c.subject ≠ .handback) :
    lastHandback clauses = (.nothing, []) := by
  have hnone := List.filterMap_eq_nil_iff.mpr
    fun c hc => Clause.handback?_eq_none_iff.mpr (h c hc)
  rw [lastHandback, hnone]
  rfl

theorem lastHandback_eq (handback : Handback) (typeName : Text)
    (h : ∀ c ∈ after, c.subject ≠ .handback) :
    lastHandback (before ++ .handsBack handback typeName :: after) = (handback, typeName) := by
  rw [lastHandback, Clause.getLast?_filterMap Clause.handback? rfl
    fun c hc => Clause.handback?_eq_none_iff.mpr (h c hc)]
  rfl

theorem lastHandback_concat (clauses : List Clause) (c : Clause) (h : c.subject ≠ .handback) :
    lastHandback (clauses ++ [c]) = lastHandback clauses := by
  rw [lastHandback, Clause.filterMap_concat clauses (Clause.handback?_eq_none_iff.mpr h),
    lastHandback]

/-- Rows that hold the same clauses in the same order come to the same. -/
theorem rows_eq (h : ∀ subject : Clause.Subject,
    clauses.filter (·.subject = subject) = others.filter (·.subject = subject)) :
    lastLevel clauses = lastLevel others ∧ listed clauses = listed others ∧
      lastHandback clauses = lastHandback others := by
  have hread {α : Type} {read : Clause → Option α} {subject : Clause.Subject}
      (hnone : ∀ c : Clause, read c = none ↔ c.subject ≠ subject) :
      clauses.filterMap read = others.filterMap read := by
    rw [← Clause.filterMap_filter_subject hnone clauses, h subject,
      Clause.filterMap_filter_subject hnone others]
  refine ⟨?_, hread fun _ => Clause.parameter?_eq_none_iff, ?_⟩
  · rw [lastLevel, hread fun _ => Clause.level?_eq_none_iff, lastLevel]
  · rw [lastHandback, hread fun _ => Clause.handback?_eq_none_iff, lastHandback]

/-! ### The declaration -/

/-- Two clauses on different subjects can be added in either order. -/
theorem add_comm (d : OperationDecl) {a b : Clause} (h : a.subject ≠ b.subject) :
    (d.add a).add b = (d.add b).add a := by
  cases a <;> cases b <;> first | rfl | exact absurd rfl h

theorem ofClauses_append (name : Text) (clauses later : List Clause) :
    ofClauses name (clauses ++ later) = later.foldl add (ofClauses name clauses) :=
  List.foldl_append

/-- **The declaration is made from the three rows.** -/
theorem ofClauses_eq (name : Text) (clauses : List Clause) :
    ofClauses name clauses =
      { name
        level := (lastLevel clauses).map (·.1)
        template := ((lastLevel clauses).map (·.2)).getD []
        parameters := placed (listed clauses)
        handback := (lastHandback clauses).1
        handbackType := (lastHandback clauses).2 } := by
  induction clauses using List.reverseRecOn with
  | nil => rfl
  | append_singleton clauses c ih =>
    rw [ofClauses_append, List.foldl_cons, List.foldl_nil, ih]
    cases c with
    | level level template =>
      rw [lastLevel_eq level template (by simp), listed_concat clauses (.level _ _) nofun,
        lastHandback_concat clauses (.level _ _) nofun]
      rfl
    | parameter parameter kind typeName =>
      rw [lastLevel_concat clauses (.parameter _ _ _) nofun, listed_concat_parameter, placed_concat,
        lastHandback_concat clauses (.parameter _ _ _) nofun]
      rfl
    | handsBack handback typeName =>
      rw [lastLevel_concat clauses (.handsBack _ _) nofun,
        listed_concat clauses (.handsBack _ _) nofun, lastHandback_eq handback typeName (by simp)]
      rfl

/-- **Which clauses make the same declaration**: those with the same last level and template, the
same parameters in the same order, and the same handback in the end. -/
theorem ofClauses_eq_iff :
    ofClauses name clauses = ofClauses name others ↔
      lastLevel clauses = lastLevel others ∧ listed clauses = listed others ∧
        lastHandback clauses = lastHandback others := by
  constructor
  · intro h
    rw [ofClauses_eq, ofClauses_eq] at h
    obtain ⟨-, hlevel, htemplate, hparameters, hhandback, htype⟩ := OperationDecl.mk.inj h
    refine ⟨?_, ?_, Prod.ext hhandback htype⟩
    · revert hlevel htemplate
      cases lastLevel clauses <;> cases lastLevel others <;> simp +contextual [Prod.ext_iff]
    · rw [← map_placed (listed clauses), hparameters, map_placed]
  · rintro ⟨hlevel, hlisted, hhandback⟩
    rw [ofClauses_eq, ofClauses_eq, hlevel, hlisted, hhandback]

/-- **Clauses gather by subject.**

Clauses make the same declaration as others exactly if they have the same last level with its
template, the same parameters in the same order, and in the end the same handback.  So two
neighbours on different subjects can change places, and no rearrangement that keeps the order within
each subject changes anything.  A level is declared exactly if some clause is on it; it and the
template are those of the last such clause, and without one the template is empty.  The parameters
are those of the clauses, in order, each with its place in the list.  What is handed back, and its
type, the last clause on it says; without one it is nothing. -/
theorem gathers_clauses (name : Text) (clauses : List Clause) :
    (∀ others, ofClauses name clauses = ofClauses name others ↔
      lastLevel clauses = lastLevel others ∧ listed clauses = listed others ∧
        lastHandback clauses = lastHandback others) ∧
    (∀ before a b after, clauses = before ++ a :: b :: after → a.subject ≠ b.subject →
      ofClauses name clauses = ofClauses name (before ++ b :: a :: after)) ∧
    (∀ others : List Clause, (∀ subject : Clause.Subject,
        clauses.filter (·.subject = subject) = others.filter (·.subject = subject)) →
      ofClauses name clauses = ofClauses name others) ∧
    ((ofClauses name clauses).level ≠ none ↔ ∃ c ∈ clauses, c.subject = .level) ∧
    (∀ before level template after, clauses = before ++ .level level template :: after →
      (∀ c ∈ after, c.subject ≠ .level) →
      (ofClauses name clauses).level = some level ∧
        (ofClauses name clauses).template = template) ∧
    ((∀ c ∈ clauses, c.subject ≠ .level) → (ofClauses name clauses).template = []) ∧
    (ofClauses name clauses).parameters.map unplaced = listed clauses ∧
    (∀ (i : Nat) (p : Parameter),
      (ofClauses name clauses).parameters[i]? = some p → p.position = i) ∧
    (∀ before handback typeName after, clauses = before ++ .handsBack handback typeName :: after →
      (∀ c ∈ after, c.subject ≠ .handback) →
      (ofClauses name clauses).handback = handback ∧
        (ofClauses name clauses).handbackType = typeName) ∧
    ((∀ c ∈ clauses, c.subject ≠ .handback) →
      (ofClauses name clauses).handback = .nothing ∧
        (ofClauses name clauses).handbackType = []) := by
  have heq := ofClauses_eq name clauses
  refine ⟨fun others => ofClauses_eq_iff, ?_, fun others h => ofClauses_eq_iff.mpr (rows_eq h), ?_,
    ?_, ?_, ?_, ?_, ?_, ?_⟩
  · rintro before a b after rfl hne
    rw [ofClauses_append, ofClauses_append, List.foldl_cons, List.foldl_cons, List.foldl_cons,
      List.foldl_cons, add_comm _ hne]
  · rw [heq, Ne, Option.map_eq_none_iff, lastLevel_eq_none_iff]
    simp only [not_forall, not_not, exists_prop]
  · rintro before level template after rfl hafter
    rw [heq, lastLevel_eq level template hafter]
    exact ⟨rfl, rfl⟩
  · intro hnone
    rw [heq, lastLevel_eq_none_iff.mpr hnone]
    rfl
  · rw [heq, map_placed]
  · intro i p hp
    rw [heq] at hp
    exact (getElem?_placed.mp hp).2
  · rintro before handback typeName after rfl hafter
    rw [heq, lastHandback_eq handback typeName hafter]
    exact ⟨rfl, rfl⟩
  · intro hnone
    rw [heq, lastHandback_of_none hnone]
    exact ⟨rfl, rfl⟩

/-- The second level counts, with its own template, and the parameters are numbered past it. -/
example : ofClauses (ascii "Greet") [.ignored, .parameter (ascii "name") .string [],
      .info (ascii "Hello"), .parameter (ascii "age") .integer []] =
    { name := ascii "Greet", level := some .info, template := ascii "Hello",
      parameters := [⟨ascii "name", .string, 0, []⟩, ⟨ascii "age", .integer, 1, []⟩] } := by
  decide

end OperationDecl

end TraceContract
