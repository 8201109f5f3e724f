import TaggedTuple.Pattern.Bindings
import TaggedTuple.Proofs.Association

/-!
# Binding a list of names

Binding two lists of pairs with the same names, and values that are related, gives bindings with the
same names and related values, also where a name is bound again (`Bindings.ofList_rel`). Where no
name is bound twice the bindings are the list itself (`Bindings.entries_ofList`).

A name that is bound again keeps its first place (`Bindings.map_fst_ofList`) and takes the last
value (`Bindings.get?_ofList`).
-/

namespace TaggedTuple

namespace Bindings

variable {α β : Type}

section rel

variable {r : α → β → Prop}

/-- Binding related values keeps the entries related. -/
theorem bindEntry_rel {l : List (Symbol × α)} {m : List (Symbol × β)}
    (h : List.Forall₂ (fun x y => x.1 = y.1 ∧ r x.2 y.2) l m) (name : Symbol) {a : α} {b : β}
    (hab : r a b) : List.Forall₂ (fun x y => x.1 = y.1 ∧ r x.2 y.2) (bindEntry name a l)
      (bindEntry name b m) := by
  induction h with
  | nil => exact .cons ⟨rfl, hab⟩ .nil
  | @cons x y _ _ hxy htail ih =>
      obtain ⟨bound, old⟩ := x
      obtain ⟨bound', old'⟩ := y
      obtain ⟨rfl, hold⟩ : bound = bound' ∧ r old old' := hxy
      rw [bindEntry, bindEntry]
      split_ifs
      · exact .cons ⟨rfl, hab⟩ htail
      · exact .cons ⟨rfl, hold⟩ ih

/-- Lists with the same names and related values give such bindings. -/
theorem ofList_rel {l : List (Symbol × α)} {m : List (Symbol × β)}
    (h : List.Forall₂ (fun x y => x.1 = y.1 ∧ r x.2 y.2) l m) :
    List.Forall₂ (fun x y => x.1 = y.1 ∧ r x.2 y.2) (ofList l).entries (ofList m).entries := by
  have hfold : ∀ (b : Bindings α) (b' : Bindings β),
      List.Forall₂ (fun x y => x.1 = y.1 ∧ r x.2 y.2) b.entries b'.entries →
      List.Forall₂ (fun x y => x.1 = y.1 ∧ r x.2 y.2)
        (l.foldl (fun b x => b.bind x.1 x.2) b).entries
        (m.foldl (fun b x => b.bind x.1 x.2) b').entries := by
    induction h with
    | nil => exact fun _ _ hb => hb
    | @cons x y _ _ hxy _ ih =>
        intro b b' hb
        refine ih _ _ ?_
        show List.Forall₂ _ (bindEntry x.1 x.2 b.entries) (bindEntry y.1 y.2 b'.entries)
        rw [← hxy.1]
        exact bindEntry_rel hb x.1 hxy.2
  exact hfold empty empty .nil

end rel

/-- A name that is not bound yet takes the last place. -/
theorem bindEntry_of_not_mem {l : List (Symbol × α)} {name : Symbol}
    (h : name ∉ l.map Prod.fst) (a : α) : bindEntry name a l = l ++ [(name, a)] := by
  induction l with
  | nil => rfl
  | cons x l ih =>
      obtain ⟨bound, old⟩ := x
      simp only [List.map_cons, List.mem_cons, not_or] at h
      rw [bindEntry, if_neg (Ne.symm h.1), ih h.2, List.cons_append]

/-- Names that are distinct are bound as they are listed. -/
theorem entries_ofList {l : List (Symbol × α)} (h : (l.map Prod.fst).Nodup) :
    (ofList l).entries = l := by
  have hfold : ∀ done rest : List (Symbol × α), ((done ++ rest).map Prod.fst).Nodup →
      (rest.foldl (fun b x => b.bind x.1 x.2) (⟨done⟩ : Bindings α)).entries = done ++ rest := by
    intro done rest hnodup
    induction rest generalizing done with
    | nil => simp
    | cons x rest ih =>
        have hx : x.1 ∉ done.map Prod.fst := by
          rw [List.map_append, List.nodup_append] at hnodup
          exact fun hmem => hnodup.2.2 x.1 hmem x.1 List.mem_cons_self rfl
        rw [List.foldl_cons, bind, bindEntry_of_not_mem hx, ih]
        · simp
        · simpa using hnodup
  exact hfold [] l h

/-- When no name repeats, looking a name up finds its entry. -/
theorem get?_ofList_eq_some_iff {l : List (Symbol × α)} (h : (l.map Prod.fst).Nodup)
    {name : Symbol} {a : α} : (ofList l).get? name = some a ↔ (name, a) ∈ l := by
  rw [get?, entries_ofList h, lookup_eq_some_iff_mem h]

/-! ### Names that are bound again -/

/-- Binding adds a name at the end unless it is already bound. -/
theorem map_fst_bindEntry (name : Symbol) (a : α) (l : List (Symbol × α)) :
    (bindEntry name a l).map Prod.fst
      = l.map Prod.fst ++ if name ∈ l.map Prod.fst then [] else [name] := by
  induction l with
  | nil => rfl
  | cons x l ih =>
      obtain ⟨bound, old⟩ := x
      by_cases hbound : bound = name
      · simp [bindEntry, hbound]
      · rw [bindEntry, if_neg hbound, List.map_cons, List.map_cons, ih]
        simp only [List.mem_cons, Ne.symm hbound, false_or, List.cons_append]

/-- The names are bound in the order of their first occurrences. -/
theorem map_fst_ofList (l : List (Symbol × α)) :
    (ofList l).entries.map Prod.fst = (l.map Prod.fst).eraseDups := by
  induction l using List.reverseRecOn with
  | nil => rfl
  | append_singleton l x ih =>
      rw [ofList, List.foldl_append, List.map_append, List.map_singleton, eraseDups_concat]
      show (bindEntry x.1 x.2 (ofList l).entries).map Prod.fst = _
      rw [map_fst_bindEntry, ih]
      simp only [List.mem_eraseDups]

/-- Binding a name changes what is found under that name only. -/
theorem lookup_bindEntry (name : Symbol) (a : α) (l : List (Symbol × α)) (k : Symbol) :
    (bindEntry name a l).lookup k = if k = name then some a else l.lookup k := by
  induction l with
  | nil =>
      by_cases hk : k = name
      · simp [bindEntry, hk]
      · simp [bindEntry, List.lookup_cons, beq_false_of_ne hk, hk]
  | cons x l ih =>
      obtain ⟨bound, old⟩ := x
      by_cases hbound : bound = name
      · subst hbound
        rw [bindEntry, if_pos rfl]
        by_cases hk : k = bound
        · simp [hk]
        · simp [List.lookup_cons, beq_false_of_ne hk, hk]
      · rw [bindEntry, if_neg hbound, List.lookup_cons, List.lookup_cons, ih]
        by_cases hk : k = bound
        · subst hk
          simp [hbound]
        · simp [beq_false_of_ne hk]

/-- Binding a name changes what is found under that name only. -/
theorem get?_bind (b : Bindings α) (name : Symbol) (a : α) (k : Symbol) :
    (b.bind name a).get? k = if k = name then some a else b.get? k :=
  lookup_bindEntry name a b.entries k

/-- A name has the value that it is bound to last. -/
theorem get?_ofList (l : List (Symbol × α)) (name : Symbol) :
    (ofList l).get? name = l.reverse.lookup name := by
  induction l using List.reverseRecOn with
  | nil => rfl
  | append_singleton l x ih =>
      rw [ofList, List.foldl_append, List.reverse_append, List.reverse_singleton,
        List.singleton_append, List.lookup_cons]
      refine (get?_bind (ofList l) x.1 x.2 name).trans ?_
      by_cases hname : name = x.1
      · simp [hname]
      · simp [beq_false_of_ne hname, hname, ih]

/-- Reading names that are bound one by one gives their values. -/
theorem mapM_get?_eq {b : Bindings α} {names : List Symbol} {values : List α}
    (hlength : names.length ≤ values.length)
    (h : ∀ x ∈ names.zip values, b.get? x.1 = some x.2) :
    names.mapM b.get? = some (values.take names.length) := by
  induction names generalizing values with
  | nil => rfl
  | cons name names ih =>
      cases values with
      | nil => cases hlength
      | cons value values =>
          rw [List.zip_cons_cons, List.forall_mem_cons] at h
          rw [List.mapM_cons, h.1, ih (Nat.le_of_succ_le_succ hlength) h.2]
          rfl

end Bindings

end TaggedTuple
