import TaggedTuple.Proofs.Symbols.Tuples
import TaggedTuple.Ty.Relation

/-!
# Comparisons of types bring in no symbols

A mismatch reports types, tags and fields, and a path of member addresses. Only symbols of the two
types that are compared occur in it (`Ty.reportsOnly_checkSubtype`,
`Ty.reportsOnly_checkEquivalent`). The rules for tuples are proved first, for any checks of the
members.
-/

namespace TaggedTuple

variable {α : Type} [HasSymbols α] {P : Symbol → Prop}

/-- The named members in ascending order hold symbols of the tuple only. -/
theorem Tuple.allSymbols_namedAscending {t : Tuple α} (ht : AllSymbols P t) :
    AllSymbols P t.namedAscending :=
  (allSymbols_named ht).of_subset t.perm_namedAscending.subset

namespace Ty

/-- On a type with symbols that have the property, the check reports no other symbols. -/
def ReportsOnly (P : Symbol → Prop) (check : Ty → TypeCheck) : Prop :=
  ∀ b, AllSymbols P b → AllSymbols P (check b)

/-! ### The rules for tuples -/

/-- A mismatch at the types themselves holds the symbols of its kind. -/
theorem allSymbols_mismatch {kind : MismatchKind} (h : AllSymbols P kind) :
    AllSymbols P (mismatch kind) :=
  allSymbols_error.mpr (allSymbols_mismatch_iff.mpr ⟨allSymbols_nil, h⟩)

/-- A condition among checks. -/
theorem allSymbols_require {c : Prop} [Decidable c] {kind : MismatchKind}
    (hkind : AllSymbols P kind) {rest : TypeCheck} (hrest : AllSymbols P rest) :
    AllSymbols P (if c then (do Except.ok (); rest) else (do mismatch kind; rest) : TypeCheck) := by
  split_ifs
  · exact hrest
  · exact allSymbols_mismatch hkind

/-- A report on the numbers of members holds no symbols. -/
theorem allSymbols_checkArity {β γ : Type} (found : Tuple β) (expected : Tuple γ) :
    AllSymbols P (checkArity found expected) := by
  unfold checkArity
  split_ifs
  · exact allSymbols_ok.mpr allSymbols_unit
  · exact allSymbols_mismatch allSymbols_kind_positionalArity

/-- A report from inside a member holds the symbols of the address besides its own. -/
theorem allSymbols_checkMember {key : TupleKey} (hkey : AllSymbols P key) {outcome : TypeCheck}
    (h : AllSymbols P outcome) : AllSymbols P (checkMember key outcome) := by
  cases outcome with
  | ok _ => exact h
  | error m =>
      obtain ⟨hpath, hkind⟩ := allSymbols_mismatch_iff.mp (allSymbols_error.mp h)
      have hwithin : AllSymbols P (m.within key) :=
        allSymbols_mismatch_iff.mpr ⟨allSymbols_cons.mpr ⟨hkey, hpath⟩, hkind⟩
      exact allSymbols_error.mpr hwithin

/-- The positional members are checked without further symbols: their addresses are numbers. -/
theorem allSymbols_checkPositional {i : Nat} {checks : List (Ty → TypeCheck)}
    (hchecks : ∀ check ∈ checks, ReportsOnly P check) {members : List Ty}
    (hmembers : AllSymbols P members) : AllSymbols P (checkPositional i checks members) := by
  induction checks generalizing i members with
  | nil => exact allSymbols_ok.mpr allSymbols_unit
  | cons check checks ih =>
      cases members with
      | nil => exact allSymbols_ok.mpr allSymbols_unit
      | cons member members =>
          obtain ⟨hcheck, hchecks⟩ := List.forall_mem_cons.mp hchecks
          obtain ⟨hmember, hmembers⟩ := allSymbols_cons.mp hmembers
          rw [checkPositional]
          exact allSymbols_bind (allSymbols_checkMember allSymbols_index (hcheck member hmember))
            fun _ _ => ih hchecks hmembers

/-- A field that is on both sides is checked with its own symbols, and what comes behind it is not
touched. -/
theorem allSymbols_checkField_bind {found : Tuple (Ty → TypeCheck)}
    (hfound : ∀ check ∈ found.members, ReportsOnly P check) {f : Symbol} (hf : P f) {b : Ty}
    (hb : AllSymbols P b) {check : Ty → TypeCheck} (hcheck : found.field? f = some check)
    {rest : TypeCheck} (hrest : AllSymbols P rest) :
    AllSymbols P (checkMember (.field f) (check b) >>= fun _ => rest) :=
  allSymbols_bind (allSymbols_checkMember (allSymbols_field.mpr hf)
    (hfound check (Tuple.mem_members_of_field? hcheck) b hb)) fun _ _ => hrest

section fields

variable {found : Tuple (Ty → TypeCheck)} (hfound : ∀ check ∈ found.members, ReportsOnly P check)
  {expected : List (Symbol × Ty)} (hexpected : AllSymbols P expected)
include hfound hexpected

/-- The check of the expected fields reports symbols of the expected tuple and of the members
only. -/
theorem allSymbols_checkFields : AllSymbols P (checkFields found expected) := by
  induction expected with
  | nil => exact allSymbols_ok.mpr allSymbols_unit
  | cons x expected ih =>
      obtain ⟨hx, htail⟩ := allSymbols_cons.mp hexpected
      obtain ⟨f, b⟩ := x
      obtain ⟨hf, hb⟩ := allSymbols_pair.mp hx
      rw [allSymbols_symbol] at hf
      rw [checkFields]
      cases hcheck : found.field? f with
      | none => exact allSymbols_mismatch (allSymbols_kind_missingField.mpr hf)
      | some check => exact allSymbols_checkField_bind hfound hf hb hcheck (ih htail)

/-- The check of the fields that both have reports symbols of the tuples only. -/
theorem allSymbols_checkPresentFields : AllSymbols P (checkPresentFields found expected) := by
  induction expected with
  | nil => exact allSymbols_ok.mpr allSymbols_unit
  | cons x expected ih =>
      obtain ⟨hx, htail⟩ := allSymbols_cons.mp hexpected
      obtain ⟨f, b⟩ := x
      obtain ⟨hf, hb⟩ := allSymbols_pair.mp hx
      rw [allSymbols_symbol] at hf
      rw [checkPresentFields]
      cases hcheck : found.field? f with
      | none => exact ih htail
      | some check => exact allSymbols_checkField_bind hfound hf hb hcheck (ih htail)

end fields

/-- An extra field is a field of the first layout. -/
theorem allSymbols_extraField? {a : Layout} (ha : AllSymbols P a) (b : Layout) :
    AllSymbols P (extraField? a b) := by
  cases hf : extraField? a b with
  | none => exact allSymbols_none
  | some f =>
      have hmem : f ∈ a.index.symbols := List.mem_of_find?_eq_some hf
      rw [Layout.symbols_index, mem_sortByKey] at hmem
      exact allSymbols_some.mpr (allSymbols_list_iff.mp (allSymbols_layout_iff.mp ha).2 f hmem)

/-- A report on an extra field holds a field of the tuple that was found. -/
theorem allSymbols_checkWidth (width : WidthPolicy) {found : Layout} (hfound : AllSymbols P found)
    (expected : Layout) : AllSymbols P (checkWidth width found expected) := by
  have hextra := allSymbols_extraField? hfound expected
  unfold checkWidth
  cases width with
  | extensible => exact allSymbols_ok.mpr allSymbols_unit
  | exact =>
      dsimp only
      generalize extraField? found expected = extra at hextra ⊢
      cases extra with
      | none => exact allSymbols_ok.mpr allSymbols_unit
      | some f => exact allSymbols_mismatch (allSymbols_kind_extraField.mpr (by simpa using hextra))

/-- A report on a tag holds the tags of the two layouts. -/
theorem allSymbols_tagMismatch_of_layouts {a b : Layout} (ha : AllSymbols P a)
    (hb : AllSymbols P b) : AllSymbols P (MismatchKind.tagMismatch b.tag a.tag) :=
  allSymbols_kind_tagMismatch.mpr ⟨(allSymbols_layout_iff.mp hb).1, (allSymbols_layout_iff.mp ha).1⟩

section tuple

variable {a : Tuple (Ty → TypeCheck)} (hlayout : AllSymbols P a.layout)
  (ha : ∀ check ∈ a.members, ReportsOnly P check) {b : Tuple Ty} (hb : AllSymbols P b)
include ha hb

/-- The positional members of tuple types are checked with their own symbols only. -/
theorem allSymbols_checkPositional_positional (i : Nat) :
    AllSymbols P (checkPositional i a.positional b.positional) :=
  allSymbols_checkPositional
    (fun check hcheck => ha check (Tuple.mem_members_of_positional hcheck))
    (allSymbols_tuple_iff.mp hb).2.1

include hlayout

/-- The subtype check of tuple types reports their own symbols only. -/
theorem allSymbols_checkTuple (policy : TuplePolicy) : AllSymbols P (checkTuple policy a b) := by
  have hlayout' := (allSymbols_tuple_iff.mp hb).1
  unfold checkTuple
  refine allSymbols_bind (allSymbols_checkArity a b) fun _ _ => ?_
  refine allSymbols_require (allSymbols_tagMismatch_of_layouts hlayout hlayout') ?_
  refine allSymbols_bind (allSymbols_checkPositional_positional ha hb 0) fun _ _ => ?_
  exact allSymbols_bind (allSymbols_checkFields ha (Tuple.allSymbols_namedAscending hb))
    fun _ _ => allSymbols_checkWidth policy.width hlayout b.layout

/-- The equivalence check of tuple types reports their own symbols only. -/
theorem allSymbols_checkSameTuple : AllSymbols P (checkSameTuple a b) := by
  have hlayout' := (allSymbols_tuple_iff.mp hb).1
  have hmissing := allSymbols_extraField? hlayout' a.layout
  have hextra := allSymbols_extraField? hlayout b.layout
  unfold checkSameTuple
  refine allSymbols_bind (allSymbols_checkArity a b) fun _ _ => ?_
  refine allSymbols_require (allSymbols_tagMismatch_of_layouts hlayout hlayout') ?_
  generalize extraField? b.layout a.layout = missing at hmissing ⊢
  cases missing with
  | some f => exact allSymbols_mismatch (allSymbols_kind_missingField.mpr (by simpa using hmissing))
  | none =>
      generalize extraField? a.layout b.layout = extra at hextra ⊢
      cases extra with
      | some f => exact allSymbols_mismatch (allSymbols_kind_extraField.mpr (by simpa using hextra))
      | none =>
          refine allSymbols_bind (allSymbols_ok.mpr allSymbols_unit) fun _ _ => ?_
          refine allSymbols_bind (allSymbols_ok.mpr allSymbols_unit) fun _ _ => ?_
          refine allSymbols_bind (allSymbols_checkPositional_positional ha hb 0) fun _ _ => ?_
          exact allSymbols_checkPresentFields ha (Tuple.allSymbols_namedAscending hb)

end tuple

/-! ### Subtyping -/

/-- Trying the members of a union on the right adds no symbols to the report. -/
theorem reportsOnly_against {sub : Ty} (hsub : AllSymbols P sub) {check : Ty → TypeCheck}
    (hcheck : ReportsOnly P check) : ReportsOnly P (against sub check) := by
  intro b hb
  cases b with
  | unknown => exact allSymbols_ok.mpr allSymbols_unit
  | union members =>
      rw [against]
      split_ifs
      · exact allSymbols_ok.mpr allSymbols_unit
      · exact allSymbols_mismatch (allSymbols_kind_incompatible.mpr ⟨hb, hsub⟩)
  | void => exact hcheck .void hb
  | scalar s => exact hcheck (.scalar s) hb
  | tuple t => exact hcheck (.tuple t) hb

/-- A union on the left reports what one of its members reports. -/
theorem reportsOnly_checkEachSubtype {policy : TuplePolicy} {as : List Ty}
    (has : ∀ a ∈ as, ReportsOnly P (checkSubtype policy a)) :
    ReportsOnly P (checkEachSubtype policy as) := by
  intro b hb
  induction as with
  | nil => exact allSymbols_ok.mpr allSymbols_unit
  | cons a as ih =>
      obtain ⟨ha, has⟩ := List.forall_mem_cons.mp has
      rw [checkEachSubtype]
      exact allSymbols_bind (ha b hb) fun _ _ => ih has

/-- The subtype check reports symbols of the two types only. -/
theorem reportsOnly_checkSubtype (policy : TuplePolicy) {a : Ty} (ha : AllSymbols P a) :
    ReportsOnly P (checkSubtype policy a) := by
  induction a using Ty.induction with
  | unknown => exact fun b _ => allSymbols_ok.mpr allSymbols_unit
  | void => exact fun b _ => allSymbols_ok.mpr allSymbols_unit
  | scalar s =>
      intro b hb
      rw [checkSubtype]
      refine reportsOnly_against ha (fun b hb => ?_) b hb
      split_ifs
      · exact allSymbols_ok.mpr allSymbols_unit
      · exact allSymbols_mismatch (allSymbols_kind_incompatible.mpr ⟨hb, ha⟩)
  | tuple t ih =>
      obtain ⟨hlayout, hmembers⟩ := allSymbols_layout_and_members (allSymbols_tuple.mp ha)
      have hchecks : ∀ check ∈ (t.map (checkSubtype policy)).members, ReportsOnly P check := by
        rw [Tuple.members_map]
        exact List.forall_mem_map.mpr fun a hmem => ih a hmem (hmembers a hmem)
      intro b hb
      rw [checkSubtype]
      refine reportsOnly_against ha (fun b hb => ?_) b hb
      cases b with
      | tuple u =>
          rw [subtypeMembers_eq_map]
          exact allSymbols_checkTuple hlayout hchecks (allSymbols_tuple.mp hb) policy
      | _ => exact allSymbols_mismatch (allSymbols_kind_incompatible.mpr ⟨hb, ha⟩)
  | union members ih =>
      rw [allSymbols_union, allSymbols_list_iff] at ha
      intro b hb
      rw [checkSubtype]
      exact reportsOnly_checkEachSubtype (fun a hmem => ih a hmem (ha a hmem)) b hb

/-! ### Equivalence -/

/-- The check in both directions reports symbols of the two types only. -/
theorem reportsOnly_checkMutualSubtype (policy : TuplePolicy) {a : Ty} (ha : AllSymbols P a) :
    ReportsOnly P (checkMutualSubtype policy a) := fun _ hb =>
  allSymbols_bind (reportsOnly_checkSubtype policy ha _ hb) fun _ _ =>
    reportsOnly_checkSubtype policy hb a ha

/-- The equivalence check reports symbols of the two types only. -/
theorem reportsOnly_checkEquivalent (policy : TuplePolicy) {a : Ty} (ha : AllSymbols P a) :
    ReportsOnly P (checkEquivalent policy a) := by
  have hmutual := reportsOnly_checkMutualSubtype policy ha
  induction a using Ty.induction with
  | unknown => exact fun b _ => allSymbols_ok.mpr allSymbols_unit
  | tuple t ih =>
      obtain ⟨hlayout, hmembers⟩ := allSymbols_layout_and_members (allSymbols_tuple.mp ha)
      have hchecks : ∀ check ∈ (t.map (checkEquivalent policy)).members, ReportsOnly P check := by
        rw [Tuple.members_map]
        exact List.forall_mem_map.mpr fun a hmem =>
          ih a hmem (hmembers a hmem) (reportsOnly_checkMutualSubtype policy (hmembers a hmem))
      intro b hb
      cases b with
      | unknown => exact allSymbols_ok.mpr allSymbols_unit
      | tuple u =>
          rw [checkEquivalent_tuple]
          exact allSymbols_checkSameTuple hlayout hchecks (allSymbols_tuple.mp hb)
      | _ => exact hmutual _ hb
  | _ =>
      intro b hb
      rw [checkEquivalent]
      split_ifs
      · exact allSymbols_ok.mpr allSymbols_unit
      · exact hmutual b hb

end Ty

end TaggedTuple
