import TaggedTuple.Config.Document
import TaggedTuple.Proofs.Toml.Reader
import TaggedTuple.Proofs.Toml.Sections

/-!
# Configurations are read back

Every configuration survives being written to a file and read again (`parse_text`), whatever strings
it holds.

The text of a configuration is made of whole lines, and these are the lines of three sections
(`written_text`). So the document that is read from it holds the tables of the sections
(`read_text`), and in them every value is found under its key (`ofEntries_sections`). A list of
strings may take several lines; then every element but the first is read together with the comma
before it, up to the comma or the bracket behind it (`exists_writeStrings_eq`).
-/

namespace TaggedTuple.Config

open Toml Toml.Reader

variable {rest : List Char}

/-! ### Lists of strings -/

/-- A string on a line of its own, behind the comma of the line before. -/
def laterElement (s : String) : List Char := ",\n".toList ++ ("    ".toList ++ writeString s)

/-- In a list that is written on several lines, every element but the first stands behind a comma,
and so does the end. -/
theorem writeStrings_cons_cons (s₁ s₂ : String) (ss : List String) :
    writeStrings (s₁ :: s₂ :: ss) = "[\n    ".toList
      ++ (writeString s₁ ++ ((s₂ :: ss).flatMap laterElement ++ ",\n]".toList)) := by
  have hmove : ",\n".toList ++ (s₂ :: ss).flatMap (fun s => "    ".toList ++ writeString s
      ++ ",\n".toList) = (s₂ :: ss).flatMap laterElement ++ ",\n".toList :=
    append_flatMap_append ..
  have hclose : ",\n]".toList = ",\n".toList ++ [']'] := rfl
  show "[\n".toList ++ (s₁ :: s₂ :: ss).flatMap _ ++ [']'] = _
  rw [hclose, ← List.append_assoc (List.flatMap ..), ← hmove, List.flatMap_cons]
  simp only [List.append_assoc]
  rfl

/-- A written string is read as an element, behind a gap. -/
theorem element_writeString (nesting : Nat) (pre : List Char)
    (hpre : ∀ more, gap (pre ++ more) = gap more) (s : String) (hrest : EndsAt [',', ']'] rest) :
    element (value nesting) (pre ++ (writeString s ++ rest)) = some (.string s, rest) := by
  have h := element_quote nesting pre hpre s.toList hrest
  rwa [String.ofList_toList] at h

/-- The elements behind the first one are read back, one to a line. -/
theorem many_laterElements (nesting : Nat) (ss : List String) (rest : List Char) :
    many (do char ','; element (value nesting)) (ss.flatMap laterElement ++ (",\n]".toList ++ rest))
      = some (ss.map .string, ",\n]".toList ++ rest) := by
  refine many_flatMap (P := EndsAt [',', ']']) (endsAt_cons_iff.mpr (by decide)) ?_ ?_ ?_ ?_
  · -- The comma behind the last element is taken, but no element follows it.
    have hgap : gap ('\n' :: ']' :: rest) = some ((), ']' :: rest) := rfl
    show element (value nesting) ('\n' :: ']' :: rest) = none
    rw [element, bind_eq hgap, bind_eq_none (value_close nesting)]
  · exact fun s _ more => endsAt_cons_iff.mpr (by decide)
  · exact fun s _ => List.cons_ne_nil _ _
  · intro s _ more hmore
    exact element_writeString nesting "\n    ".toList (fun _ => rfl) s hmore

/-- An element is followed by a comma. -/
theorem endsAt_laterElements (ss : List String) (rest : List Char) :
    EndsAt [',', ']'] (ss.flatMap laterElement ++ (",\n]".toList ++ rest)) := by
  cases ss with
  | nil => exact endsAt_cons_iff.mpr (by decide)
  | cons s ss => exact endsAt_cons_iff.mpr (by decide)

/-- A written list of strings is a bracket and elements that are read in their order. -/
theorem exists_writeStrings_eq (nesting : Nat) (ss : List String) :
    ∃ s, writeStrings ss = '[' :: s ∧
      ∀ rest, elements (value nesting) (s ++ rest) = some (ss.map .string, rest) := by
  match ss with
  | [] => exact ⟨[']'], rfl, fun _ => elements_nil nesting⟩
  | [s] =>
      refine ⟨writeString s ++ [']'], rfl, fun rest => ?_⟩
      rw [List.append_assoc]
      exact elements_eq (element_writeString nesting [] (fun _ => rfl) s
        (endsAt_cons_iff.mpr (by decide))) (many_eq_nil rfl) (optional_eq_none rfl) rfl
  | s₁ :: s₂ :: ss =>
      refine ⟨_, writeStrings_cons_cons s₁ s₂ ss, fun rest => ?_⟩
      show elements _ ("\n    ".toList ++ (writeString s₁ ++ ((s₂ :: ss).flatMap laterElement
        ++ ",\n]".toList)) ++ rest) = _
      rw [List.append_assoc, List.append_assoc, List.append_assoc]
      exact elements_eq (element_writeString nesting _ (fun _ => rfl) s₁
        (endsAt_laterElements (s₂ :: ss) rest)) (many_laterElements nesting (s₂ :: ss) rest)
        (optional_eq (a := ()) rfl) rfl

/-! ### Sections -/

/-- A string is written as the text of a value. -/
theorem valueText_writeString (s : String) : ValueText (writeString s) (.string s) := by
  have h := valueText_quote s.toList
  rwa [String.ofList_toList] at h

/-- A list of strings is written as the text of an array. -/
theorem valueText_writeStrings (ss : List String) :
    ValueText (writeStrings ss) (.array (ss.map .string)) := by
  -- The list itself is one level of nesting.
  have hnesting : maxNesting = 78 + 1 := rfl
  obtain ⟨s, heq, helements⟩ := exists_writeStrings_eq 78 ss
  refine ⟨fun rest => ?_, fun rest => ?_⟩
  · rw [heq]
    exact noBlank_cons_iff.mpr rfl
  · rw [heq, hnesting]
    exact value_array (helements ('\n' :: rest))

/-- The title of a section is written as its header. -/
theorem written_title (name : String) (hname : BareKey name.toList) :
    Written ('[' :: (name.toList ++ [']', '\n'])) [.header ⟨[], name⟩] := by
  have h := written_header hname
  rwa [String.ofList_toList] at h

/-- A key with its value is written as one line. -/
theorem written_writeKey (key : String) (hkey : BareKey key.toList) {v : List Char} {d : Datum}
    (hv : ValueText v d) : Written (writeKey key v) [keyLine (key, d)] := by
  have h := written_assignment hkey hv
  rwa [String.ofList_toList] at h

/-- What a file says about a key whose value may be absent. -/
def optionalEntry (key : String) (s? : Option String) : List (String × Datum) :=
  (s?.map fun s => (key, Datum.string s)).toList

/-- A key whose value may be absent is one line or none. -/
theorem written_elim_writeKey (key : String) (hkey : BareKey key.toList) (s? : Option String) :
    Written (s?.elim [] fun s => writeKey key (writeString s))
      ((optionalEntry key s?).map keyLine) := by
  cases s? with
  | none => exact written_nil
  | some s => exact written_writeKey key hkey (valueText_writeString s)

/-- What a file says about a package. -/
def packageEntries (p : PackageConfig) : List (String × Datum) :=
  optionalEntry "name" p.name ++ optionalEntry "version" p.version
    ++ [("dependencies", .array (p.dependencies.map .string)), ("root", .string p.root),
      ("entry", .string p.entry)]

/-- What a file says about tuple types. -/
def typesEntries (p : TuplePolicy) : List (String × Datum) :=
  [("tag_policy", .string p.tags.text), ("width_policy", .string p.width.text)]

/-- What a file says about layouts. -/
def cacheEntries (canonicalizeLayouts : Bool) : List (String × Datum) :=
  [("canonicalize_layouts", .boolean canonicalizeLayouts)]

/-- The sections of a file. -/
def sections (c : Config) : List Section :=
  [("package", packageEntries c.package), ("types", typesEntries c.types),
    ("cache", cacheEntries c.canonicalizeLayouts)]

/-- The section of the package holds its entries. -/
theorem written_writePackage (p : PackageConfig) :
    Written (writePackage p) (Section.lines ("package", packageEntries p)) := by
  have htitle := written_title "package" (by decide)
  have hname := written_elim_writeKey "name" (by decide) p.name
  have hversion := written_elim_writeKey "version" (by decide) p.version
  have hdependencies := written_writeKey "dependencies" (by decide)
    (valueText_writeStrings p.dependencies)
  have hroot := written_writeKey "root" (by decide) (valueText_writeString p.root)
  have hentry := written_writeKey "entry" (by decide) (valueText_writeString p.entry)
  have hfixed : Written _ (([("dependencies", .array (p.dependencies.map .string)),
      ("root", .string p.root), ("entry", .string p.entry)] : List (String × Datum)).map keyLine) :=
    (hdependencies.append hroot).append hentry
  have hentries := (hname.append hversion).append hfixed
  rw [← List.map_append, ← List.map_append] at hentries
  have h := htitle.append hentries
  simp only [List.append_assoc] at h
  unfold writePackage packageEntries
  simp only [List.append_assoc]
  exact h

/-- The section of the policies holds its entries. -/
theorem written_writeTypes (p : TuplePolicy) :
    Written (writeTypes p) (Section.lines ("types", typesEntries p)) := by
  have htitle := written_title "types" (by decide)
  have htags := written_writeKey "tag_policy" (by decide) (valueText_writeString p.tags.text)
  have hwidth := written_writeKey "width_policy" (by decide) (valueText_writeString p.width.text)
  exact (htitle.append htags).append hwidth

/-- The section of the cache holds its entry. -/
theorem written_writeCache (b : Bool) :
    Written (writeCache b) (Section.lines ("cache", cacheEntries b)) := by
  have htitle := written_title "cache" (by decide)
  exact htitle.append (written_writeKey "canonicalize_layouts" (by decide) (valueText_boolean b))

/-- The text of a configuration consists of the lines of its sections. -/
theorem written_text (c : Config) : Written c.text.toList (c.sections.flatMap Section.lines) := by
  have h := ((written_writePackage c.package).append
    (written_empty.append (written_writeTypes c.types))).append
    (written_empty.append (written_writeCache c.canonicalizeLayouts))
  rw [text, String.toList_ofList, sections, List.flatMap_cons, List.flatMap_cons,
    List.flatMap_singleton, ← List.append_assoc]
  exact h

/-! ### Reading them back -/

/-- The keys of the package differ, whichever of them are left out. -/
theorem nodup_keys_packageEntries (p : PackageConfig) :
    ((packageEntries p).map Prod.fst).Nodup := by
  obtain ⟨name, version, dependencies, root, entry⟩ := p
  cases name with
  | none =>
      cases version with
      | none => exact (by decide : ["dependencies", "root", "entry"].Nodup)
      | some v => exact (by decide : ["version", "dependencies", "root", "entry"].Nodup)
  | some n =>
      cases version with
      | none => exact (by decide : ["name", "dependencies", "root", "entry"].Nodup)
      | some v => exact (by decide : ["name", "version", "dependencies", "root", "entry"].Nodup)

/-- The keys of each section differ. -/
theorem nodup_keys_of_mem_sections (c : Config) : ∀ s ∈ c.sections, (s.2.map Prod.fst).Nodup := by
  rw [sections, List.forall_mem_cons, List.forall_mem_cons, List.forall_mem_singleton]
  exact ⟨nodup_keys_packageEntries c.package, (by decide : ["tag_policy", "width_policy"].Nodup),
    List.nodup_singleton _⟩

/-- The text of a configuration is a document, and it holds the values of the configuration. -/
theorem read_text (c : Config) :
    Document.read c.text = some (c.sections.map fun s => (s.1, .table s.2)) := by
  have hmark : c.text.toList.head? ≠ some '\ufeff' := by
    rw [text, String.toList_ofList]
    exact fun heq => absurd (Option.some.inj heq) (by decide)
  exact Document.read_eq_of_lines ((written_text c).lines_eq hmark)
    (by decide : ["package", "types", "cache"].Nodup) c.nodup_keys_of_mem_sections

/-- A list of strings is read back. -/
theorem readStrings_map (ss : List String) : readStrings (.array (ss.map .string)) = some ss := by
  show (ss.map Datum.string).mapM Datum.string? = some ss
  induction ss with
  | nil => rfl
  | cons s ss ih =>
      rw [List.map_cons, List.mapM_cons, ih]
      rfl

/-- The package is read back from its entries. -/
theorem readPackage_packageEntries (p : PackageConfig) :
    readPackage (.table (packageEntries p)) = some p := by
  have hread : readPackage (.table (packageEntries p))
      = (readStrings (.array (p.dependencies.map .string))).bind fun dependencies =>
          some { p with dependencies } := by
    obtain ⟨name, version, dependencies, root, entry⟩ := p
    cases name with
    | none =>
        cases version with
        | none => rfl
        | some v => rfl
    | some n =>
        cases version with
        | none => rfl
        | some v => rfl
  rw [hread, readStrings_map]
  rfl

/-- The policies are read back from their entries. -/
theorem readTypes_typesEntries (p : TuplePolicy) :
    readTypes (.table (typesEntries p)) = some p := by
  have hread : readTypes (.table (typesEntries p))
      = (TagPolicy.ofText? p.tags.text).bind fun tags =>
          (WidthPolicy.ofText? p.width.text).bind fun width => some { tags, width } := rfl
  rw [hread, TagPolicy.ofText?_text, WidthPolicy.ofText?_text]
  rfl

/-- A configuration is read back from its sections. -/
theorem ofEntries_sections (c : Config) :
    ofEntries (c.sections.map fun s => (s.1, .table s.2)) = some c := by
  have hread : ofEntries (c.sections.map fun s => (s.1, .table s.2))
      = (readPackage (.table (packageEntries c.package))).bind fun package =>
          (readTypes (.table (typesEntries c.types))).bind fun types =>
            some { c with package, types } := rfl
  rw [hread, readPackage_packageEntries, Option.bind_some, readTypes_typesEntries]
  rfl

/-- Reading the text of a configuration gives the configuration back, whatever strings it holds. -/
theorem parse_text (c : Config) : parse c.text = .ok c := by
  rw [parse, read_text, Option.bind_some, ofEntries_sections]

end TaggedTuple.Config
