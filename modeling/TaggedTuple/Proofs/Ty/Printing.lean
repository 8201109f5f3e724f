import TaggedTuple.Proofs.Ty.ReadBack

/-!
# Types that print alike mean alike

Two types with the same text are subtypes of each other under every policy, as long as their tags
and field names are words and their texts do not collide (`Ty.alike_texts_mean_alike`). So a report
on incompatible types shows two different texts.

Texts collide where one type has an empty union and the other one a tuple type with the tag `Any`
and without members. Both are printed as `Any()`, and the report on them reads
"expected `Any()`, found `Any()`" (`Ty.not_isSubtype_of_any_texts`).
-/

namespace TaggedTuple

namespace Ty

variable {names : Symbol.Names} {policy : TuplePolicy}

/-! ### Labels -/

/-- What is in no part and not between them is not in the whole. -/
theorem not_mem_intercalate {α : Type} {c : α} {sep : List α} {parts : List (List α)}
    (hsep : c ∉ sep) (hparts : ∀ part ∈ parts, c ∉ part) : c ∉ sep.intercalate parts := by
  induction parts with
  | nil => exact List.not_mem_nil
  | cons part parts ih =>
      have htail := ih fun p hp => hparts p (List.mem_cons_of_mem _ hp)
      have hhead := hparts part List.mem_cons_self
      cases parts with
      | nil => rwa [List.intercalate_singleton]
      | cons part' parts =>
          rw [List.intercalate_cons_cons, List.mem_append, List.mem_append]
          exact not_or.mpr ⟨not_or.mpr ⟨hhead, hsep⟩, htail⟩

/-- No quote occurs in the text of a type. -/
theorem quote_not_mem_text {a : Ty} (ha : a.Legible names) : '`' ∉ (a.text names).toList := by
  induction a using Ty.induction with
  | unknown => exact (by decide : '`' ∉ "?".toList)
  | void => exact (by decide : '`' ∉ "Void".toList)
  | scalar s => exact (plain_text_scalar s).quote_not_mem
  | union members ih =>
      by_cases hnil : members = []
      · subst hnil
        exact (by decide : '`' ∉ "Any()".toList)
      · rw [text_union ha hnil, String.toList_intercalate, List.map_map]
        exact not_mem_intercalate (by decide)
          (List.forall_mem_map.mpr fun a hmem => ih a hmem (legible_union_iff.mp ha a hmem))
  | tuple t ih =>
      obtain ⟨-, -, hmembers⟩ := legible_tuple_iff.mp ha
      have hentry : ∀ e ∈ t.entries, '`' ∉ (entryText names e).toList := by
        intro e he
        rcases mem_entries_cases ha he with ⟨x, hx, rfl⟩ | ⟨f, hf, x, hx, rfl⟩
        · exact ih x hx (hmembers x hx)
        · have hname := (eq_some_nameText hf).2.plain.quote_not_mem
          have hcolon : '`' ∉ ": ".toList := by decide
          rw [entryText, String.toList_append, String.toList_append]
          simp only [List.mem_append, hname, hcolon, ih x hx (hmembers x hx), or_self,
            not_false_eq_true]
      have hhead := (plain_headText ha).quote_not_mem
      have hentries := not_mem_intercalate (by decide : '`' ∉ ", ".toList)
        (List.forall_mem_map.mpr hentry)
      have hbrackets : '`' ∉ "(".toList ∧ '`' ∉ ")".toList := by decide
      rw [text_tuple ha, argumentsText, String.toList_append, String.toList_append,
        String.toList_append, String.toList_intercalate, List.map_map]
      simp only [List.mem_append, hhead, hbrackets.1, hbrackets.2, or_false, false_or]
      exact hentries

/-- A label whose quoted texts are the same quotes the same text twice. -/
theorem eq_of_label_eq {p q text : String} (hp : '`' ∉ p.toList) (hq : '`' ∉ q.toList)
    (h : "expected `" ++ p ++ "`, found `" ++ q ++ "`"
      = "expected `" ++ text ++ "`, found `" ++ text ++ "`") : p = q := by
  replace h := congrArg String.toList h
  simp only [String.toList_append, List.append_assoc] at h
  replace h := List.append_cancel_left h
  have htext : '`' ∉ text.toList := by
    have hcount := congrArg (List.count '`') h
    have hp0 := List.count_eq_zero.mpr hp
    have hq0 := List.count_eq_zero.mpr hq
    simp only [List.count_append, hp0, hq0] at hcount
    apply List.count_eq_zero.mp
    omega
  have hstops : ∀ more, EndsAt ['`'] ("`, found `".toList ++ more) := fun _ =>
    endsAt_cons_iff.mpr (by decide)
  have hnone : ∀ {s : List Char}, '`' ∉ s → ∀ c ∈ s, c ∉ ['`'] := by
    rintro s hs c hc hmem
    obtain rfl := List.mem_singleton.mp hmem
    exact hs hc
  obtain ⟨hfirst, hrest⟩ := append_inj_of_endsAt (hnone hp) (hnone htext) (hstops _) (hstops _) h
  have hsecond := List.append_cancel_right (List.append_cancel_left hrest)
  exact String.toList_inj.mp (hfirst.trans hsecond.symm)

/-! ### Mismatches -/

/-- What is found in an alternative is found in the type. -/
theorem foundAt_of_mem_alternatives {a x y : Ty} {path : List TupleKey} (hx : x ∈ a.alternatives)
    (h : x.FoundAt path y) : a.FoundAt path y := by
  induction a using Ty.induction with
  | union members ih =>
      by_cases hnil : members = []
      · subst hnil
        obtain rfl := List.mem_singleton.mp hx
        exact h
      · rw [alternatives_union hnil, List.mem_flatMap] at hx
        obtain ⟨a, ha, hx⟩ := hx
        exact .union ha (ih a ha hx)
  | _ =>
      obtain rfl := List.mem_singleton.mp hx
      exact h

/-- What is found in a legible type is legible. -/
theorem Legible.of_foundAt {a x : Ty} {path : List TupleKey} (ha : a.Legible names)
    (h : a.FoundAt path x) : x.Legible names := by
  induction h with
  | here a => exact ha
  | member get _ ih =>
      obtain ⟨shape, -, hmembers⟩ := legible_tuple_iff.mp ha
      exact ih (hmembers _ (Tuple.mem_members_of_getKey shape get))
  | union mem _ ih => exact ih (legible_union_iff.mp ha _ mem)

/-- What subtyping reports as incompatible are parts of the types that are no subtypes. -/
theorem incompatible_of_checkSubtype {a b : Ty} (ha : a.WellFormed) (hb : b.WellFormed)
    {m : TypeMismatch} (h : checkSubtype policy a b = .error m) {expected found : Ty}
    (hkind : m.kind = .incompatible expected found) :
    isSubtype policy found expected = false ∧ a.FoundAt m.path found ∧
      b.FoundAt m.path expected := by
  obtain ⟨s, p, hleads, hfault⟩ := exists_leadsTo_of_error ha hb h
  rw [hkind] at hfault
  obtain ⟨rfl, rfl, hfails, -⟩ := hfault
  obtain ⟨hs, hp⟩ := foundAt_of_leadsTo hleads
  exact ⟨hfails, hs, hp⟩

/-- Tuple types are not reported as incompatible themselves. -/
theorem exists_member_of_incompatible {t u : Tuple Ty} (ht : t.WellFormed) (hu : u.WellFormed)
    {m : TypeMismatch} (h : checkEquivalent policy (.tuple t) (.tuple u) = .error m)
    {expected found : Ty} (hkind : m.kind = .incompatible expected found) :
    ∃ key a b inner, t.getKey key = .ok a ∧ u.getKey key = .ok b ∧
      checkEquivalent policy a b = .error inner ∧ m = inner.within key := by
  rcases oriented_or_member_of_checkEquivalent ht hu h with ⟨hpath, -⟩ | hmember
  · rw [checkEquivalent_tuple] at h
    rcases checkSameTuple_eq_error_cases h with ⟨-, rfl⟩ | ⟨-, rfl⟩ | ⟨g, -, rfl⟩ | ⟨g, -, rfl⟩ |
      hpositional | hfields
    · cases hkind
    · cases hkind
    · cases hkind
    · cases hkind
    · obtain ⟨i, a, b, inner, -, -, -, rfl⟩ := exists_of_checkPositional_eq_error hpositional
      cases hpath
    · obtain ⟨x, -, a, inner, -, -, rfl⟩ := exists_of_checkPresentFields_eq_error hfields
      cases hpath
  · exact hmember

/-- The expected type and the found one are parts of two types, in either order, and the found one
is no subtype of the expected one. -/
structure IncompatibleParts (policy : TuplePolicy) (a b : Ty) (path : List TupleKey)
    (expected found : Ty) : Prop where
  fails : isSubtype policy found expected = false
  parts : (a.FoundAt path found ∧ b.FoundAt path expected) ∨
    (b.FoundAt path found ∧ a.FoundAt path expected)

/-- Types that are not both tuple types are incompatible themselves or inside a union. -/
theorem incompatibleParts_of_not_tuple {a b : Ty} (ha : a.WellFormed) (hb : b.WellFormed)
    (hnone : a.tuple? = none ∨ b.tuple? = none) {m : TypeMismatch}
    (h : checkEquivalent policy a b = .error m) {expected found : Ty}
    (hkind : m.kind = .incompatible expected found) :
    IncompatibleParts policy a b m.path expected found := by
  rcases checkSubtype_of_not_tuple hnone h with hfirst | ⟨-, hsecond⟩
  · obtain ⟨hfails, hparts⟩ := incompatible_of_checkSubtype ha hb hfirst hkind
    exact ⟨hfails, .inl hparts⟩
  · obtain ⟨hfails, hparts⟩ := incompatible_of_checkSubtype hb ha hsecond hkind
    exact ⟨hfails, .inr hparts⟩

/-- What an equivalence check reports as incompatible are parts of the two types. -/
theorem incompatibleParts_of_checkEquivalent {a b : Ty} (ha : a.WellFormed) (hb : b.WellFormed)
    {m : TypeMismatch} (h : checkEquivalent policy a b = .error m) {expected found : Ty}
    (hkind : m.kind = .incompatible expected found) :
    IncompatibleParts policy a b m.path expected found := by
  induction ha generalizing b m with
  | unknown => cases h
  | void => exact incompatibleParts_of_not_tuple .void hb (.inl rfl) h hkind
  | scalar s => exact incompatibleParts_of_not_tuple (.scalar s) hb (.inl rfl) h hkind
  | union each _ => exact incompatibleParts_of_not_tuple (.union each) hb (.inl rfl) h hkind
  | tuple shape members ih =>
      have ha := WellFormed.tuple shape members
      cases hb with
      | unknown => cases h
      | void => exact incompatibleParts_of_not_tuple ha .void (.inr rfl) h hkind
      | scalar s => exact incompatibleParts_of_not_tuple ha (.scalar s) (.inr rfl) h hkind
      | union each => exact incompatibleParts_of_not_tuple ha (.union each) (.inr rfl) h hkind
      | tuple shape' members' =>
          obtain ⟨key, x, y, inner, hx, hy, herror, rfl⟩ :=
            exists_member_of_incompatible shape shape' h hkind
          obtain ⟨hfails, hparts⟩ := ih x (Tuple.mem_members_of_getKey shape hx)
            (members' y (Tuple.mem_members_of_getKey shape' hy)) herror hkind
          exact ⟨hfails, hparts.imp (fun h => ⟨.member hx h.1, .member hy h.2⟩)
            fun h => ⟨.member hy h.1, .member hx h.2⟩⟩

/-- Texts collide only where one of the types has an empty union. -/
theorem Collide.exists_foundAt {a b : Ty} (h : Collide names a b) :
    (∃ path, a.FoundAt path (.union [])) ∨ ∃ path, b.FoundAt path (.union []) := by
  induction h with
  | left members tag => exact .inl ⟨[], .here _⟩
  | right members tag => exact .inr ⟨[], .here _⟩
  | member left right _ ih =>
      exact ih.imp (fun ⟨path, h⟩ => ⟨_ :: path, .member left h⟩)
        fun ⟨path, h⟩ => ⟨_ :: path, .member right h⟩
  | alternative left right _ ih =>
      have hx := List.mem_of_getElem? left
      have hy := List.mem_of_getElem? right
      exact ih.imp (fun ⟨path, h⟩ => ⟨path, foundAt_of_mem_alternatives hx h⟩)
        fun ⟨path, h⟩ => ⟨path, foundAt_of_mem_alternatives hy h⟩

/-! ### The law -/

/-- A report on a mismatch has one label, which describes it. -/
theorem exists_describe_of_diagnose {m : TypeMismatch} {span : Span} {report : Diagnostic}
    (h : m.diagnose span names = some report) :
    ∃ text, m.kind.describe names = some text ∧ report.labels = [⟨span, text, true⟩] := by
  unfold TypeMismatch.diagnose at h
  obtain ⟨text, htext, h⟩ := Option.bind_eq_some_iff.mp h
  refine ⟨text, htext, ?_⟩
  dsimp only at h
  split_ifs at h
  · cases h
    rfl
  · obtain ⟨path, -, h⟩ := Option.bind_eq_some_iff.mp h
    cases h
    rfl

/-- The label on types that are no subtypes quotes two texts. -/
theorem label_ne_of_not_isSubtype {table : SymbolTable} (htable : table.Valid) {a b : Ty}
    (ha : a.Legible table.name?) (hb : b.Legible table.name?)
    (hfails : isSubtype policy b a = false) (hnot : ¬Collide table.name? a b) {text : String} :
    (MismatchKind.incompatible a b).describe table.name?
      ≠ some ("expected `" ++ text ++ "`, found `" ++ text ++ "`") := by
  intro h
  rw [MismatchKind.describe, ha.render_eq, hb.render_eq] at h
  have hsame := eq_of_label_eq (quote_not_mem_text ha) (quote_not_mem_text hb)
    (Option.some.inj h)
  rcases collideOrMutual_of_text_eq (fun _ _ _ => htable.name?_injective) ha hb hsame with
    hcollide | hmutual
  · exact hnot hcollide
  · cases hfails.symm.trans (hmutual policy).2

/-- Types that print alike are subtypes of each other, unless their texts collide. In particular the
label of a report on incompatible types does not quote the same text twice. -/
theorem alike_texts_mean_alike {table : SymbolTable} (htable : table.Valid) {a b : Ty}
    (ha : a.Legible table.name?) (hb : b.Legible table.name?) :
    (a.render table.name? = b.render table.name? → ¬Collide table.name? a b →
      ∀ policy, isSubtype policy a b = true ∧ isSubtype policy b a = true) ∧
    ∀ policy m expected found,
      checkSubtype policy a b = .error m ∨ checkEquivalent policy a b = .error m →
      m.kind = .incompatible expected found → ¬Collide table.name? expected found →
      ∀ span report, m.diagnose span table.name? = some report →
      ∀ label ∈ report.labels, ∀ text,
        label.message ≠ "expected `" ++ text ++ "`, found `" ++ text ++ "`" := by
  constructor
  · intro h hnot
    have htext : a.text table.name? = b.text table.name? := congrArg (Option.getD · "") h
    exact (collideOrMutual_of_text_eq (fun _ _ _ => htable.name?_injective) ha hb
      htext).resolve_left hnot
  · intro policy m expected found herror hkind hnot span report hreport label hlabel text heq
    have hparts : isSubtype policy found expected = false ∧ expected.Legible table.name? ∧
        found.Legible table.name? := by
      rcases herror with h | h
      · obtain ⟨hfails, hfound, hexpected⟩ :=
          incompatible_of_checkSubtype ha.wellFormed hb.wellFormed h hkind
        exact ⟨hfails, hb.of_foundAt hexpected, ha.of_foundAt hfound⟩
      · obtain ⟨hfails, ⟨hfound, hexpected⟩ | ⟨hfound, hexpected⟩⟩ :=
          incompatibleParts_of_checkEquivalent ha.wellFormed hb.wellFormed h hkind
        · exact ⟨hfails, hb.of_foundAt hexpected, ha.of_foundAt hfound⟩
        · exact ⟨hfails, ha.of_foundAt hexpected, hb.of_foundAt hfound⟩
    obtain ⟨hfails, hexpected, hfound⟩ := hparts
    obtain ⟨described, hdescribed, hlabels⟩ := exists_describe_of_diagnose hreport
    rw [hlabels] at hlabel
    obtain rfl := List.mem_singleton.mp hlabel
    rw [hkind, show described = _ from heq] at hdescribed
    exact label_ne_of_not_isSubtype htable hexpected hfound hfails hnot hdescribed

/-- A legible type without empty unions, whose text collides with no other one. -/
structure Unmistakable (names : Symbol.Names) (a : Ty) : Prop where
  legible : a.Legible names
  not_empty : ∀ path, ¬a.FoundAt path (union [])

/-- A scalar is unmistakable. -/
theorem Unmistakable.scalar (s : Scalar) : Unmistakable names (scalar s) :=
  ⟨⟨.scalar s, nofun⟩, nofun⟩

/-- A union of unmistakable types is unmistakable unless it is empty. -/
theorem Unmistakable.union {a : Ty} {as : List Ty} (h : ∀ b ∈ a :: as, Unmistakable names b) :
    Unmistakable names (union (a :: as)) := by
  refine ⟨legible_union_iff.mpr fun b hb => (h b hb).legible, ?_⟩
  rintro path (_ | _ | ⟨mem, onward⟩)
  exact (h _ mem).not_empty path onward

/-- Only texts with an empty union in them collide. -/
theorem Unmistakable.not_collide {a b : Ty} (ha : Unmistakable names a)
    (hb : Unmistakable names b) :
    ¬Collide names a b := by
  intro h
  rcases h.exists_foundAt with ⟨path, h⟩ | ⟨path, h⟩
  · exact ha.not_empty path h
  · exact hb.not_empty path h

/-- The names `x`, `y` and `Point`. -/
def pointNames : SymbolTable := (SymbolTable.empty.internAll ["x", "y", "Point"]).2

/-- The type of points `Point(x: a, y: Int)`. -/
def point (a : Ty) : Ty :=
  let layout : Layout := { Layout.ascendingPair 0 with tag := some ⟨3⟩ }
  tuple ⟨⟨0, 0, layout⟩, [], [a, scalar .int]⟩

/-- A type of points is legible if that of their first member is. -/
theorem Unmistakable.point {a : Ty} (ha : Unmistakable pointNames.name? a) :
    Unmistakable pointNames.name? (point a) := by
  have hmembers : ∀ b ∈ [a, .scalar .int], Unmistakable pointNames.name? b := by
    simp [ha, Unmistakable.scalar]
  refine ⟨legible_tuple_iff.mpr ⟨⟨rfl, rfl⟩, ?_, fun b hb => (hmembers b hb).legible⟩, ?_⟩
  · intro s hs
    have hs : s ∈ [(⟨3⟩ : Symbol), ⟨1⟩, ⟨2⟩] := hs
    simp only [List.mem_cons, List.not_mem_nil, or_false] at hs
    rcases hs with rfl | rfl | rfl
    · exact ⟨"Point", by decide, isWord_of_identifier (by decide) (by decide)⟩
    · exact ⟨"x", by decide, isWord_of_identifier (by decide) (by decide)⟩
    · exact ⟨"y", by decide, isWord_of_identifier (by decide) (by decide)⟩
  · rintro path (_ | ⟨get, onward⟩)
    exact (hmembers _ (Tuple.mem_members_of_getKey ⟨rfl, rfl⟩ get)).not_empty _ onward

/-- Unions print alike however they are nested, and are subtypes of each other. The label on two
points whose first members differ shows two texts. -/
theorem alike_texts_mean_alike_of_points :
    let flat := union [scalar .int, point (scalar .str)]
    let nested := union [union [scalar .int], point (union [scalar .str])]
    flat.render pointNames.name? = some "Int | Point(x: Str, y: Int)" ∧
      nested.render pointNames.name? = some "Int | Point(x: Str, y: Int)" ∧
      (∀ policy, isSubtype policy flat nested = true ∧ isSubtype policy nested flat = true) ∧
      ∃ m span report, checkSubtype {} (point (scalar .int)) (point (scalar .str)) = .error m ∧
        m.diagnose span pointNames.name? = some report ∧ ∀ label ∈ report.labels, ∀ text,
          label.message ≠ "expected `" ++ text ++ "`, found `" ++ text ++ "`" := by
  intro flat nested
  have htable : pointNames.Valid := SymbolTable.valid_empty.internAll _
  have hscalar : ∀ s, Unmistakable pointNames.name? (scalar s) := .scalar
  have hflat : Unmistakable pointNames.name? flat := .union (by simp [hscalar, Unmistakable.point])
  have hnested : Unmistakable pointNames.name? nested :=
    .union (by simp [hscalar, Unmistakable.point, Unmistakable.union])
  have htext : flat.render pointNames.name? = some "Int | Point(x: Str, y: Int)" := by
    with_unfolding_all rfl
  have htext' : nested.render pointNames.name? = some "Int | Point(x: Str, y: Int)" := by
    with_unfolding_all rfl
  let m : TypeMismatch := ⟨[.field ⟨1⟩], .incompatible (scalar .str) (scalar .int)⟩
  have herror : checkSubtype {} (point (scalar .int)) (point (scalar .str)) = .error m := by
    with_unfolding_all rfl
  refine ⟨htext, htext', (alike_texts_mean_alike htable hflat.legible hnested.legible).1
    (htext.trans htext'.symm) (hflat.not_collide hnested), m, .dummy, _, herror, rfl, ?_⟩
  exact (alike_texts_mean_alike htable (hscalar .int).point.legible (hscalar .str).point.legible).2
    {} m _ _ (.inl herror) rfl ((hscalar _).not_collide (hscalar _)) _ _ rfl

/-- The text `Any()` is that of the empty union, and that of a tuple type without members and with
the tag `Any`, which is no subtype of it. The report on the mismatch shows no difference. -/
theorem not_isSubtype_of_any_texts :
    let table := (SymbolTable.empty.intern "Any").2
    let any := tuple ⟨⟨0, 0, { Layout.ofPositional 0 with tag := some ⟨1⟩ }⟩, [], []⟩
    let m := TypeMismatch.ofKind (.incompatible (union []) any)
    table.Valid ∧ any.Legible table.name? ∧ (union []).Legible table.name? ∧
      any.render table.name? = some "Any()" ∧ (union []).render table.name? = some "Any()" ∧
      checkSubtype {} any (union []) = .error m ∧
      m.kind.describe table.name? = some "expected `Any()`, found `Any()`" := by
  intro table any m
  refine ⟨SymbolTable.valid_empty.intern _, ⟨?_, ?_⟩, ⟨by simp, nofun⟩, by with_unfolding_all rfl,
    rfl, by with_unfolding_all rfl, by with_unfolding_all rfl⟩
  · simp [any, Tuple.members, Tuple.wellFormed_iff, Tuple.layout, Layout.ofPositional]
  · intro s hs
    obtain rfl : s = ⟨1⟩ := List.mem_singleton.mp hs
    exact ⟨"Any", by decide, isWord_of_identifier (by decide) (by decide)⟩

end Ty

end TaggedTuple
