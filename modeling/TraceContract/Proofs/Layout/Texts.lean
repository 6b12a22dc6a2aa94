import TraceContract.Layout
import TraceContract.Proofs.Layout.Keys
import TraceContract.Proofs.Results
import Mathlib.Data.List.Forall2

/-!
# What all layouts of an entry agree on

The plain layout renders every field.  The member layout renders only those that have no type of their
own among members, and of the others takes the value.  They fail on the same entries all the same, for
only what has no type of its own can throw:

    layout.line e = .error thrown ↔ e.fields.thrown? = some thrown

* `Fields.thrown?` is what the first field throws that throws, `Fields.Read` says what all of them read
  where none does.
* `Layout.line_error_iff`: the equivalence above.  Its two halves, `Plain.fieldTexts_error_iff` and
  `Members.addFields_error_iff`, are inductions on the fields, by what the first of them comes to.
* `Plain.text_of_read`: the plain text of an entry, item by item.
* `Layout.line_agrees`: both layouts of every entry, side by side.
-/

namespace TraceContract

/-! ### What rendering throws -/

namespace Value

def thrown? (v : Value) : Option Thrown :=
  match v.render with
  | .ok _ => none
  | .error thrown => some thrown

theorem thrown?_of_ok {v : Value} {text : Text} (h : v.render = .ok text) : v.thrown? = none := by
  rw [thrown?, h]

theorem thrown?_of_error {v : Value} {thrown : Thrown} (h : v.render = .error thrown) :
    v.thrown? = some thrown := by
  rw [thrown?, h]

theorem thrown?_eq_none_iff {v : Value} : v.thrown? = none ↔ ∃ text, v.render = .ok text := by
  cases h : v.render with
  | ok text => simp [thrown?_of_ok h]
  | error thrown => simp [thrown?_of_error h]

end Value

namespace Fields

def thrown? (fields : Fields) : Option Thrown := fields.findSome? (·.2.thrown?)

def Read (fields : Fields) (texts : List Text) : Prop :=
  List.Forall₂ (fun field text => field.2.render = .ok text) fields texts

variable {fields rest : Fields} {name : Text} {value : Value} {text : Text} {texts : List Text}
  {thrown : Thrown}

theorem thrown?_cons_of_error (h : value.render = .error thrown) :
    thrown? ((name, value) :: rest) = some thrown :=
  List.findSome?_cons_of_isSome (by rw [Value.thrown?_of_error h]; rfl) |>.trans
    (Value.thrown?_of_error h)

theorem thrown?_cons_of_ok (h : value.render = .ok text) :
    thrown? ((name, value) :: rest) = thrown? rest :=
  List.findSome?_cons_of_isNone (by rw [Value.thrown?_of_ok h]; rfl)

theorem thrown?_eq_none_iff :
    thrown? fields = none ↔ ∀ field ∈ fields, ∃ text, field.2.render = .ok text := by
  simp only [thrown?, List.findSome?_eq_none_iff, Value.thrown?_eq_none_iff]

/-- What fails with what the first field throws, and only then, succeeds where all fields can be
rendered. -/
theorem exists_ok_iff_of_error_iff {α : Type} {x : Except Thrown α}
    (h : ∀ thrown, x = .error thrown ↔ thrown? fields = some thrown) :
    (∃ a, x = .ok a) ↔ ∀ field ∈ fields, ∃ text, field.2.render = .ok text := by
  rw [exists_ok_iff, ← thrown?_eq_none_iff, Option.eq_none_iff_forall_ne_some]
  simp only [ne_eq, h]

theorem exists_read (h : thrown? fields = none) : ∃ texts, Read fields texts := by
  have hall := thrown?_eq_none_iff.mp h
  clear h
  induction fields with
  | nil => exact ⟨[], .nil⟩
  | cons field fields ih =>
    obtain ⟨hfirst, hrest⟩ := List.forall_mem_cons.mp hall
    obtain ⟨text, htext⟩ := hfirst
    obtain ⟨texts, htexts⟩ := ih hrest
    exact ⟨text :: texts, .cons htext htexts⟩

theorem Read.getElem? (h : Read fields texts) {i : Nat} (hi : fields[i]? = some (name, value)) :
    ∃ text, texts[i]? = some text ∧ value.render = .ok text := by
  induction h generalizing i with
  | nil => exact absurd hi (by simp)
  | @cons field text fields texts hfirst hrest ih =>
    cases i with
    | zero =>
      obtain rfl : field = (name, value) := Option.some.inj hi
      exact ⟨text, rfl, hfirst⟩
    | succ i => exact ih hi

end Fields

/-! ### The plain layout -/

namespace Plain

variable {fields : Fields} {texts : List Text} {thrown : Thrown} {e : Entry}

theorem fieldTexts_error_iff :
    fieldTexts fields = .error thrown ↔ fields.thrown? = some thrown := by
  induction fields with
  | nil => exact iff_of_false (by simp [fieldTexts]) (by simp [Fields.thrown?])
  | cons field rest ih =>
    obtain ⟨name, value⟩ := field
    rw [fieldTexts]
    cases hvalue : value.render with
    | error first => rw [Fields.thrown?_cons_of_error hvalue, Except.error.injEq, Option.some.injEq]
    | ok text => rw [map_eq_error_iff, ih, Fields.thrown?_cons_of_ok hvalue]

def items (fields : Fields) (texts : List Text) : List Text :=
  fields.zipWith (fun field text => field.1 ++ ascii "=" ++ text) texts

/-- Items between braces, and nothing where there are none. -/
def listing (items : List Text) : Text :=
  if items = [] then [] else ascii " \x7b" ++ List.intercalate (ascii ", ") items ++ ascii "\x7d"

theorem getElem?_items {i : Nat} {name text : Text} {value : Value}
    (hfield : fields[i]? = some (name, value)) (htext : texts[i]? = some text) :
    (items fields texts)[i]? = some (name ++ ascii "=" ++ text) := by
  rw [items, List.getElem?_zipWith, hfield, htext]

theorem fieldTexts_of_read (h : fields.Read texts) :
    fieldTexts fields = .ok (items fields texts) := by
  induction h with
  | nil => rfl
  | @cons field text fields texts hfirst hrest ih =>
    rw [fieldTexts, hfirst]
    exact map_eq_ok_iff.mpr ⟨_, ih, rfl⟩

theorem fieldList_of_read (h : fields.Read texts) :
    fieldList fields = .ok (listing (items fields texts)) := by
  cases h with
  | nil => rfl
  | cons hfirst hrest =>
    exact map_eq_ok_iff.mpr ⟨_, fieldTexts_of_read (.cons hfirst hrest), rfl⟩

theorem fieldList_error_iff :
    fieldList fields = .error thrown ↔ fields.thrown? = some thrown := by
  cases fields with
  | nil => exact iff_of_false (by simp [fieldList]) (by simp [Fields.thrown?])
  | cons field rest => rw [fieldList, map_eq_error_iff, fieldTexts_error_iff]; simp

theorem text_error_iff : text e = .error thrown ↔ e.fields.thrown? = some thrown := by
  rw [text, map_eq_error_iff, fieldList_error_iff]

theorem text_of_read (h : e.fields.Read texts) :
    text e = .ok (heading e ++ listing (items e.fields texts) ++ exceptionLines e.exception) :=
  map_eq_ok_iff.mpr ⟨_, fieldList_of_read h, rfl⟩

end Plain

/-! ### The member layout -/

namespace Members

variable {fields : Fields} {thrown : Thrown} {e : Entry} {application environment host : Text}

/-- What keeps its type among members does not throw when it is rendered. -/
theorem ofValue_error_iff {v : Value} : ofValue v = .error thrown ↔ v.render = .error thrown := by
  have hmap (w : Value) : w.render.map MemberValue.string = .error thrown ↔
      w.render = .error thrown := map_eq_error_iff
  cases v with
  | string | boolean | integer | unsigned | floating => simp [ofValue, Value.render]
  | character b => exact hmap (.character b)
  | exception handle e => exact hmap (.exception handle e)
  | object typeName renderer => exact hmap (.object typeName renderer)

theorem addFields_error_iff {members : Members} :
    addFields members fields = .error thrown ↔ fields.thrown? = some thrown := by
  induction fields generalizing members with
  | nil => exact iff_of_false (by simp [addFields]) (by simp [Fields.thrown?])
  | cons field rest ih =>
    obtain ⟨name, value⟩ := field
    rw [addFields]
    cases hvalue : value.render with
    | error first =>
      rw [ofValue_error_iff.mpr hvalue, Fields.thrown?_cons_of_error hvalue]
      simp
    | ok text =>
      obtain ⟨v, hshows⟩ := exists_shows ⟨text, hvalue⟩
      rw [hshows.ofValue_eq, Fields.thrown?_cons_of_ok hvalue]
      exact ih

theorem ofEntry_error_iff :
    ofEntry application environment host e = .error thrown ↔ e.fields.thrown? = some thrown :=
  addFields_error_iff

theorem exists_ofEntry_iff :
    (∃ members, ofEntry application environment host e = .ok members) ↔
      ∀ field ∈ e.fields, ∃ text, field.2.render = .ok text :=
  Fields.exists_ok_iff_of_error_iff fun _ => ofEntry_error_iff

theorem Shows.eq_string {v : Value} {m : MemberValue} {text : Text} (h : Shows v m)
    (hkind : v.kind ∈ [Kind.string, .character, .exception, .object]) (ht : v.render = .ok text) :
    m = .string text := by
  cases h with
  | string t =>
    obtain rfl := Except.ok.inj ht
    rfl
  | text _ ht' => rw [Except.ok.inj (ht'.symm.trans ht)]
  | _ => exact absurd hkind (by simp [Value.kind])

end Members

/-! ### Side by side -/

namespace Layout

variable {e : Entry} {thrown : Thrown}

/-- **Every layout fails on the same entries**, and with what the first field throws that throws. -/
theorem line_error_iff (layout : Layout) :
    layout.line e = .error thrown ↔ e.fields.thrown? = some thrown := by
  cases layout with
  | plain => rw [line, map_eq_error_iff, Plain.text_error_iff]
  | members application environment host => rw [line, map_eq_error_iff, Members.ofEntry_error_iff]

theorem exists_line_iff (layout : Layout) :
    (∃ line, layout.line e = .ok line) ↔ ∀ field ∈ e.fields, ∃ text, field.2.render = .ok text :=
  Fields.exists_ok_iff_of_error_iff fun _ => line_error_iff layout

/-- **The layouts of an entry agree.**  They all fail if rendering a field throws, each with what the
first such field throws.  Otherwise none fails.  Then the plain one lists the fields in order, each
with its text, and the members, of whatever application, environment and machine, have the fields in
the same order after the attributes; where a field is a text, a character, an exception or an object,
its member has the text that is listed. -/
theorem line_agrees (e : Entry) :
    (∀ (layout : Layout) (thrown : Thrown),
      layout.line e = .error thrown ↔ e.fields.thrown? = some thrown) ∧
    (e.fields.thrown? = none → ∃ texts, e.fields.Read texts ∧
      line .plain e = .ok (.text (Plain.heading e ++ Plain.listing (Plain.items e.fields texts) ++
        Plain.exceptionLines e.exception)) ∧
      ∀ application environment host, ∃ added : Members,
        line (.members application environment host) e =
          .ok (.members (Members.attributes application environment host e ++ added)) ∧
        added.length = e.fields.length ∧
        ∀ (i : Nat) (name : Text) (value : Value), e.fields[i]? = some (name, value) →
          ∃ n v text, (Plain.items e.fields texts)[i]? = some (name ++ ascii "=" ++ text) ∧
            added[i]? = some (Members.marked n name, v) ∧ Members.Shows value v ∧
            (value.kind ∈ [Kind.string, .character, .exception, .object] → v = .string text)) := by
  refine ⟨fun layout thrown => line_error_iff layout, fun hnone => ?_⟩
  obtain ⟨texts, hread⟩ := Fields.exists_read hnone
  refine ⟨texts, hread, map_eq_ok_iff.mpr ⟨_, Plain.text_of_read hread, rfl⟩, ?_⟩
  intro application environment host
  obtain ⟨added, hadd, hlays⟩ := Members.lays_addFields (Fields.thrown?_eq_none_iff.mp hnone)
    (Members.attributes application environment host e)
  refine ⟨added, map_eq_ok_iff.mpr ⟨_, hadd, rfl⟩, hlays.length_eq, ?_⟩
  intro i name value hi
  obtain ⟨text, htext, hrender⟩ := hread.getElem? hi
  obtain ⟨n, v, hmember, hshows, -⟩ := hlays.getElem? hi
  exact ⟨n, v, text, Plain.getElem?_items hi htext, hmember, hshows,
    fun hkind => hshows.eq_string hkind hrender⟩

end Layout

end TraceContract
