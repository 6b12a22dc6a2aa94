import TraceContract.Proofs.Template.Acceptance

/-!
# What compiling a contract decides

`Contract.compile` goes through the declared operations once and stops at the first fault.  Two
tables of names are at work: the names seen so far, which a repeated name is held against, and the
index of the finished contract, in which a later operation would replace an earlier one of its name.

* `OperationDecl.faults` lists everything that is wrong with one operation, in the order in which
  faults count; `OperationDecl.Sound` says that nothing is, its name apart.
* `Operation.Makes d op`: `op` is made of `d` alone.
* `exists_compileFrom_iff` and `compileFrom_error_iff` say what a row of declared operations compiles
  to.  Both follow from what one operation does (`compileFrom_cons_ok_iff`,
  `compileFrom_cons_error_iff`) by induction on the row.
* `Contract.find?_eq_some_iff`: where names are distinct, the index finds each operation.
* `Contract.compile_decides`: all of it for a whole contract.
-/

namespace TraceContract

open Text

/-! ### One operation -/

namespace OperationDecl

/-- Every fault of an operation of a contract in which the names `taken` were declared before, in
the order in which they count. -/
def faults (contract : Text) (taken : List Text) (d : OperationDecl) : List DeclarationError :=
  (if d.name ∈ taken then [.operation contract d.name .declaredTwice] else []) ++
  (if d.level = none then [.operation contract d.name .withoutLevel] else []) ++
  (if d.handback = .unsupported then
    [.operation contract d.name (.unsupportedHandback d.handbackType)] else []) ++
  (match Template.read d.parameterNames d.template with
    | .ok _ => []
    | .error token => [.template contract d.name token d.template]) ++
  (match Roles.ofParameters d.handback d.parameters with
    | .ok _ => []
    | .error (parameter, fault) => [.role contract d.name parameter fault])

/-- An operation that has a level, hands back something that operations can, and has a template
and parameters that are in order. -/
structure Sound (d : OperationDecl) : Prop where
  level : d.level ≠ none
  handback : d.handback ≠ .unsupported
  template : ∃ t, Template.read d.parameterNames d.template = .ok t
  roles : ∃ r, Roles.ofParameters d.handback d.parameters = .ok r

theorem place_of_mem_faults {contract : Text} {taken : List Text} {d : OperationDecl}
    {e : DeclarationError} (h : e ∈ d.faults contract taken) :
    e.contract = contract ∧ e.operationName = d.name := by
  simp only [faults, List.mem_append] at h
  rcases h with (((h | h) | h) | h) | h
  · split at h
    · rw [List.mem_singleton.mp h]; exact ⟨rfl, rfl⟩
    · exact absurd h (by simp)
  · split at h
    · rw [List.mem_singleton.mp h]; exact ⟨rfl, rfl⟩
    · exact absurd h (by simp)
  · split at h
    · rw [List.mem_singleton.mp h]; exact ⟨rfl, rfl⟩
    · exact absurd h (by simp)
  · split at h
    · exact absurd h (by simp)
    · rw [List.mem_singleton.mp h]; exact ⟨rfl, rfl⟩
  · split at h
    · exact absurd h (by simp)
    · rw [List.mem_singleton.mp h]; exact ⟨rfl, rfl⟩

theorem faults_eq_nil_iff {contract : Text} {taken : List Text} {d : OperationDecl} :
    d.faults contract taken = [] ↔ d.name ∉ taken ∧ d.Sound := by
  have hsound : d.Sound ↔ d.level ≠ none ∧ d.handback ≠ .unsupported ∧
      (∃ t, Template.read d.parameterNames d.template = .ok t) ∧
      ∃ r, Roles.ofParameters d.handback d.parameters = .ok r :=
    ⟨fun h => ⟨h.level, h.handback, h.template, h.roles⟩, fun h => ⟨h.1, h.2.1, h.2.2.1, h.2.2.2⟩⟩
  rw [hsound, faults]
  cases ht : Template.read d.parameterNames d.template with
  | error token => simp
  | ok t =>
    cases hr : Roles.ofParameters d.handback d.parameters with
    | error fault => simp
    | ok r => simp

theorem faults_congr {contract : Text} {taken taken' : List Text} (d : OperationDecl)
    (h : d.name ∈ taken ↔ d.name ∈ taken') : d.faults contract taken = d.faults contract taken' := by
  rw [faults, faults]
  simp only [h]

theorem faults_middle (contract : Text) (before taken : List Text) (name : Text)
    (d : OperationDecl) :
    d.faults contract (before ++ name :: taken) = d.faults contract (name :: before ++ taken) := by
  refine faults_congr d ?_
  rw [List.mem_append, List.mem_cons, List.cons_append, List.mem_cons, List.mem_append]
  exact or_left_comm

end OperationDecl

namespace Operation

/-- The operation that a declared operation compiles to, which depends on nothing else. -/
structure Makes (d : OperationDecl) (op : Operation) : Prop where
  decl : op.decl = d
  template : Template.read d.parameterNames d.template = .ok op.template
  roles : Roles.ofParameters d.handback d.parameters = .ok op.roles

theorem Makes.name_eq {d : OperationDecl} {op : Operation} (h : Makes d op) : op.name = d.name := by
  rw [name, h.decl]

variable {contract : Text} {d : OperationDecl}

theorem compile_ok_iff {op : Operation} :
    compile contract d = .ok op ↔ d.Sound ∧ Makes d op := by
  rw [compile]
  constructor
  · intro h
    split at h
    · exact absurd h (by simp)
    split at h
    · exact absurd h (by simp)
    next hlevel hback =>
    split at h
    · exact absurd h (by simp)
    next t ht =>
    split at h
    · exact absurd h (by simp)
    next r hr =>
    have ht' := readTemplate_ok_iff.mp ht
    have hr' := mapError_eq_ok_iff.mp hr
    cases h
    exact ⟨⟨hlevel, hback, ⟨t, ht'⟩, ⟨r, hr'⟩⟩, ⟨rfl, ht', hr'⟩⟩
  · rintro ⟨hs, hm⟩
    have ht : readTemplate contract d.name d.parameterNames d.template = .ok op.template :=
      readTemplate_ok_iff.mpr hm.template
    have hr : assignRoles contract d.name d.handback d.parameters = .ok op.roles :=
      mapError_eq_ok_iff.mpr hm.roles
    rw [if_neg hs.level, if_neg hs.handback, ht]
    simp only [hr]
    rw [← hm.decl]

/-- An operation that does not compile is refused for its first fault. -/
theorem compile_error_iff {taken : List Text} (hn : d.name ∉ taken) {e : DeclarationError} :
    compile contract d = .error e ↔ (d.faults contract taken).head? = some e := by
  rw [compile, OperationDecl.faults, if_neg hn, List.nil_append]
  by_cases hlevel : d.level = none
  · simp [hlevel]
  rw [if_neg hlevel, if_neg hlevel, List.nil_append]
  by_cases hback : d.handback = .unsupported
  · simp [hback]
  rw [if_neg hback, if_neg hback, List.nil_append]
  cases ht : Template.read d.parameterNames d.template with
  | error token => simp [readTemplate_of_error ht]
  | ok t =>
    rw [readTemplate_ok_iff.mpr ht]
    cases hr : Roles.ofParameters d.handback d.parameters with
    | error fault =>
      have hroles : assignRoles contract d.name d.handback d.parameters =
          .error (.role contract d.name fault.1 fault.2) :=
        mapError_eq_error_iff.mpr ⟨fault, hr, rfl⟩
      rw [hroles]
      simp
    | ok r =>
      have hroles : assignRoles contract d.name d.handback d.parameters = .ok r :=
        mapError_eq_ok_iff.mpr hr
      rw [hroles]
      simp

theorem exists_makes (h : d.Sound) : ∃ op, Makes d op := by
  obtain ⟨t, ht⟩ := h.template
  obtain ⟨r, hr⟩ := h.roles
  exact ⟨⟨d, t, r⟩, ⟨rfl, ht, hr⟩⟩

end Operation

/-! ### A row of operations -/

namespace Contract

open Operation (Makes)

variable {contract : Text} {taken : List Text} {d : OperationDecl} {rest : List OperationDecl}

/-- **The first operation of a row that compiles** has no fault, and the others compile where its
name is taken. -/
theorem compileFrom_cons_ok_iff {ops : List Operation} :
    compileFrom contract taken (d :: rest) = .ok ops ↔
      d.name ∉ taken ∧ d.Sound ∧ ∃ op later, ops = op :: later ∧ Makes d op ∧
        compileFrom contract (d.name :: taken) rest = .ok later := by
  rw [compileFrom]
  by_cases hn : d.name ∈ taken
  · rw [if_pos hn]
    exact ⟨fun h => absurd h (by simp), fun h => absurd hn h.1⟩
  rw [if_neg hn]
  cases hc : Operation.compile contract d with
  | error e =>
    constructor
    · intro h
      exact absurd h (by simp)
    · rintro ⟨-, hs, op, -, -, hm, -⟩
      rw [Operation.compile_ok_iff.mpr ⟨hs, hm⟩] at hc
      exact absurd hc (by simp)
  | ok op =>
    obtain ⟨hs, hm⟩ := Operation.compile_ok_iff.mp hc
    constructor
    · intro h
      obtain ⟨later, hl, rfl⟩ := map_eq_ok_iff.mp h
      exact ⟨hn, hs, op, later, rfl, hm, hl⟩
    · rintro ⟨-, -, op', later, rfl, hm', hl⟩
      have he : op = op' :=
        Except.ok.inj (hc.symm.trans (Operation.compile_ok_iff.mpr ⟨hs, hm'⟩))
      exact map_eq_ok_iff.mpr ⟨later, hl, by rw [he]⟩

/-- **The first operation of a row that does not compile** is at fault itself, or it is in order
and one after it is at fault. -/
theorem compileFrom_cons_error_iff {e : DeclarationError} :
    compileFrom contract taken (d :: rest) = .error e ↔
      (d.faults contract taken).head? = some e ∨
        d.faults contract taken = [] ∧
          compileFrom contract (d.name :: taken) rest = .error e := by
  rw [compileFrom]
  by_cases hn : d.name ∈ taken
  · rw [if_pos hn, OperationDecl.faults, if_pos hn]
    simp
  rw [if_neg hn]
  cases hc : Operation.compile contract d with
  | error e' =>
    have hf := (Operation.compile_error_iff hn).mp hc
    constructor
    · intro h
      cases h
      exact Or.inl hf
    · rintro (h | ⟨h, -⟩)
      · rw [hf] at h
        exact congrArg _ (Option.some.inj h)
      · rw [h] at hf
        exact absurd hf (by simp)
  | ok op =>
    have hnil : d.faults contract taken = [] :=
      OperationDecl.faults_eq_nil_iff.mpr ⟨hn, (Operation.compile_ok_iff.mp hc).1⟩
    rw [hnil]
    simp

theorem exists_compileFrom_iff {ds : List OperationDecl} :
    (∃ ops, compileFrom contract taken ds = .ok ops) ↔
      (ds.map (·.name)).Nodup ∧ (∀ d ∈ ds, d.name ∉ taken) ∧ ∀ d ∈ ds, d.Sound := by
  induction ds generalizing taken with
  | nil => simp [compileFrom]
  | cons d rest ih =>
    have hstep : (∃ ops, compileFrom contract taken (d :: rest) = .ok ops) ↔
        d.name ∉ taken ∧ d.Sound ∧
          ∃ later, compileFrom contract (d.name :: taken) rest = .ok later := by
      constructor
      · rintro ⟨ops, h⟩
        obtain ⟨hn, hs, op, later, -, -, hl⟩ := compileFrom_cons_ok_iff.mp h
        exact ⟨hn, hs, later, hl⟩
      · rintro ⟨hn, hs, later, hl⟩
        obtain ⟨op, hm⟩ := Operation.exists_makes hs
        exact ⟨op :: later, compileFrom_cons_ok_iff.mpr ⟨hn, hs, op, later, rfl, hm, hl⟩⟩
    rw [hstep, ih]
    simp only [List.map_cons, List.nodup_cons, List.mem_map, List.mem_cons, not_or,
      forall_eq_or_imp, not_exists, not_and]
    constructor
    · rintro ⟨hn, hs, hnodup, hout, hall⟩
      exact ⟨⟨fun d' hd' => (hout d' hd').1, hnodup⟩, ⟨hn, fun d' hd' => (hout d' hd').2⟩, hs, hall⟩
    · rintro ⟨⟨hfresh, hnodup⟩, ⟨hn, hout⟩, hs, hall⟩
      exact ⟨hn, hs, hnodup, fun d' hd' => ⟨hfresh d' hd', hout d' hd'⟩, hall⟩

theorem makes_of_compileFrom {ds : List OperationDecl} {ops : List Operation}
    (h : compileFrom contract taken ds = .ok ops) : List.Forall₂ Makes ds ops := by
  induction ds generalizing taken ops with
  | nil =>
    cases h
    exact .nil
  | cons d rest ih =>
    obtain ⟨-, -, op, later, rfl, hm, hl⟩ := compileFrom_cons_ok_iff.mp h
    exact .cons hm (ih hl)

/-- **A row that does not compile** is in order up to an operation, and is refused for that
operation's first fault. -/
theorem compileFrom_error_iff {ds : List OperationDecl} {e : DeclarationError} :
    compileFrom contract taken ds = .error e ↔
      ∃ before d after, ds = before ++ d :: after ∧
        (∃ ops, compileFrom contract taken before = .ok ops) ∧
        (d.faults contract (before.map (·.name) ++ taken)).head? = some e := by
  induction ds generalizing taken with
  | nil => simp [compileFrom]
  | cons d rest ih =>
    rw [compileFrom_cons_error_iff, ih]
    constructor
    · rintro (h | ⟨hnil, before, d', after, rfl, ⟨ops, hops⟩, h⟩)
      · exact ⟨[], d, rest, rfl, ⟨[], rfl⟩, h⟩
      · obtain ⟨hn, hs⟩ := OperationDecl.faults_eq_nil_iff.mp hnil
        obtain ⟨op, hm⟩ := Operation.exists_makes hs
        refine ⟨d :: before, d', after, rfl,
          ⟨op :: ops, compileFrom_cons_ok_iff.mpr ⟨hn, hs, op, ops, rfl, hm, hops⟩⟩, ?_⟩
        rwa [OperationDecl.faults_middle] at h
    · rintro ⟨before, d', after, hsplit, ⟨ops, hops⟩, h⟩
      cases before with
      | nil =>
        obtain ⟨rfl, rfl⟩ := List.cons.inj hsplit
        exact Or.inl h
      | cons b before =>
        obtain ⟨rfl, rfl⟩ := List.cons.inj hsplit
        obtain ⟨hn, hs, op, later, -, -, hl⟩ := compileFrom_cons_ok_iff.mp hops
        refine Or.inr ⟨OperationDecl.faults_eq_nil_iff.mpr ⟨hn, hs⟩, before, d', after, rfl,
          ⟨later, hl⟩, ?_⟩
        rwa [OperationDecl.faults_middle]

/-! ### The index -/

theorem get?_enter_of_notMem {ops : List Operation} {name : Text}
    (h : name ∉ ops.map Operation.name) (table : Directory Nat) (i : Nat) :
    (enter table i ops).get? name = table.get? name := by
  induction ops generalizing table i with
  | nil => rfl
  | cons op rest ih =>
    rw [List.map_cons, List.mem_cons, not_or] at h
    rw [enter, ih h.2, Directory.get?_put_of_ne table (Ne.symm h.1)]

/-- Among distinct names nothing in the table gives way, so every operation is found. -/
theorem get?_enter {ops : List Operation} (h : (ops.map Operation.name).Nodup) {k : Nat}
    {op : Operation} (hk : ops[k]? = some op) (table : Directory Nat) (i : Nat) :
    (enter table i ops).get? op.name = some (i + k) := by
  induction ops generalizing table i k with
  | nil => exact absurd hk (by simp)
  | cons first rest ih =>
    rw [List.map_cons, List.nodup_cons] at h
    rw [enter]
    cases k with
    | zero =>
      rw [List.getElem?_cons_zero, Option.some.injEq] at hk
      subst hk
      rw [get?_enter_of_notMem h.1, Directory.get?_put_self, Nat.add_zero]
    | succ k =>
      rw [List.getElem?_cons_succ] at hk
      rw [ih h.2 hk, Nat.add_assoc, Nat.add_comm 1]

/-- **The operation found by a name** is the one that has it. -/
theorem find?_eq_some_iff {c : Contract} (h : (c.operations.map Operation.name).Nodup)
    {name : Text} {op : Operation} :
    c.find? name = some op ↔ op ∈ c.operations ∧ op.name = name := by
  have found {op : Operation} (hop : op ∈ c.operations) : c.find? op.name = some op := by
    obtain ⟨k, hk⟩ := List.mem_iff_getElem?.mp hop
    rw [find?, index, get?_enter h hk, Option.bind_some, Nat.zero_add, hk]
  constructor
  · intro hf
    by_cases hname : name ∈ c.operations.map Operation.name
    · obtain ⟨op', hop', rfl⟩ := List.mem_map.mp hname
      rw [found hop', Option.some.injEq] at hf
      exact ⟨hf ▸ hop', congrArg Operation.name hf.symm⟩
    · rw [find?, index, get?_enter_of_notMem hname] at hf
      exact absurd hf (by simp [Directory.get?])
  · rintro ⟨hop, rfl⟩
    exact found hop

/-! ### A whole contract -/

theorem compile_ok_iff {d : ContractDecl} {c : Contract} :
    compile d = .ok c ↔ c.name = d.name ∧ compileFrom d.name [] d.operations = .ok c.operations := by
  rw [compile, map_eq_ok_iff]
  constructor
  · rintro ⟨ops, h, rfl⟩
    exact ⟨rfl, h⟩
  · rintro ⟨hname, h⟩
    exact ⟨c.operations, h, by rw [← hname]⟩

theorem exists_compile_iff {d : ContractDecl} :
    (∃ c, compile d = .ok c) ↔
      (d.operations.map (·.name)).Nodup ∧ ∀ op ∈ d.operations, op.Sound := by
  have hrow : (∃ c, compile d = .ok c) ↔ ∃ ops, compileFrom d.name [] d.operations = .ok ops :=
    ⟨fun ⟨c, h⟩ => ⟨c.operations, (compile_ok_iff.mp h).2⟩,
      fun ⟨ops, h⟩ => ⟨⟨d.name, ops⟩, compile_ok_iff.mpr ⟨rfl, h⟩⟩⟩
  rw [hrow, exists_compileFrom_iff]
  simp

theorem names_of_makes {ds : List OperationDecl} {ops : List Operation}
    (h : List.Forall₂ Makes ds ops) : ops.map Operation.name = ds.map (·.name) := by
  induction h with
  | nil => rfl
  | cons hm _ ih => rw [List.map_cons, List.map_cons, hm.name_eq, ih]

theorem names_nodup_of_compile {d : ContractDecl} {c : Contract} (h : compile d = .ok c) :
    (c.operations.map Operation.name).Nodup := by
  rw [names_of_makes (makes_of_compileFrom (compile_ok_iff.mp h).2)]
  exact (exists_compile_iff.mp ⟨c, h⟩).1

theorem find?_eq_none_iff_of_compile {d : ContractDecl} {c : Contract} (h : compile d = .ok c)
    {name : Text} : c.find? name = none ↔ name ∉ d.operations.map (·.name) := by
  rw [← names_of_makes (makes_of_compileFrom (compile_ok_iff.mp h).2), List.mem_map,
    Option.eq_none_iff_forall_ne_some]
  simp only [ne_eq, find?_eq_some_iff (names_nodup_of_compile h), not_exists]

/-- A contract that does not compile is refused for the first fault of the first operation up to
which it does not. -/
theorem exists_fault_of_compile {d : ContractDecl} {e : DeclarationError}
    (h : compile d = .error e) :
    ∃ before op after, d.operations = before ++ op :: after ∧
      (∃ c, compile ⟨d.name, before⟩ = .ok c) ∧
      (¬ ∃ c, compile ⟨d.name, before ++ [op]⟩ = .ok c) ∧
      (op.faults d.name (before.map (·.name))).head? = some e := by
  obtain ⟨before, op, after, hsplit, ⟨ops, hops⟩, hf⟩ :=
    compileFrom_error_iff.mp (map_eq_error_iff.mp h)
  rw [List.append_nil] at hf
  refine ⟨before, op, after, hsplit, ⟨⟨d.name, ops⟩, compile_ok_iff.mpr ⟨rfl, hops⟩⟩, ?_, hf⟩
  rintro ⟨c, hc⟩
  have he : compileFrom d.name [] (before ++ [op]) = .error e :=
    compileFrom_error_iff.mpr ⟨before, op, [], rfl, ⟨ops, hops⟩, by rwa [List.append_nil]⟩
  rw [(compile_ok_iff.mp hc).2] at he
  exact absurd he (by simp)

/-- **What compiling a contract decides.**  It succeeds if and only if the names of the operations
are distinct and every operation is in order.  Then the compiled contract has the declared
operations in their order, each made of its declaration alone, and a name finds the one operation
that has it.  Otherwise the first operation up to which the contract does not compile is named, with
the first of its faults. -/
theorem compile_decides (d : ContractDecl) :
    ((∃ c, compile d = .ok c) ↔
      (d.operations.map (·.name)).Nodup ∧ ∀ op ∈ d.operations, op.Sound) ∧
    (∀ c, compile d = .ok c →
      c.name = d.name ∧ List.Forall₂ Makes d.operations c.operations ∧
      ∀ name, (∀ op, c.find? name = some op ↔ op ∈ c.operations ∧ op.name = name) ∧
        (c.find? name = none ↔ name ∉ d.operations.map (·.name))) ∧
    (∀ e, compile d = .error e →
      ∃ before op after, d.operations = before ++ op :: after ∧
        e.contract = d.name ∧ e.operationName = op.name ∧
        (∃ c, compile ⟨d.name, before⟩ = .ok c) ∧
        (¬ ∃ c, compile ⟨d.name, before ++ [op]⟩ = .ok c) ∧
        (op.faults d.name (before.map (·.name))).head? = some e) := by
  refine ⟨exists_compile_iff, fun c h => ?_, fun e h => ?_⟩
  · exact ⟨(compile_ok_iff.mp h).1, makes_of_compileFrom (compile_ok_iff.mp h).2,
      fun name => ⟨fun op => find?_eq_some_iff (names_nodup_of_compile h),
        find?_eq_none_iff_of_compile h⟩⟩
  · obtain ⟨before, op, after, hsplit, hok, hno, hf⟩ := exists_fault_of_compile h
    obtain ⟨hc, ho⟩ := OperationDecl.place_of_mem_faults (List.mem_of_mem_head? hf)
    exact ⟨before, op, after, hsplit, hc, ho, hok, hno, hf⟩

end Contract

end TraceContract
