import VerticalSlice.Proofs.Feature.Writing
import VerticalSlice.Proofs.FeatureImports.Destination
import VerticalSlice.Proofs.Path.Normalize

/-!
# Accepted names are safe

A name is checked without the blanks around it, and its spellings are derived from the name as it
was written. Still every accepted name has a file stem, a class name and a constant's name as its
spellings, whatever blanks and underscores it was written with. The spelling for files is a name that
is accepted again with the same spellings (`ofText?_kebab`), and the one for constants loses nothing
of it (`toConst_eq_iff`). So the files of the feature lie in a folder of its own below a normal
folder of features, and belong to the feature there (`featureOf_of_mem_files`).

The main result is `ofText?_safe`.
-/

namespace VerticalSlice

namespace Text

variable {text : Text}

theorem trim_eq_self (h : ∀ c ∈ text, isBlank c = false) : trim text = text := by
  have hfirst : ∀ {other : Text}, (∀ c ∈ other, isBlank c = false) → other.dropWhile isBlank = other := by
    intro other hother
    cases other with
    | nil => rfl
    | cons c rest => exact List.dropWhile_cons_of_neg (by simp [hother c (List.mem_cons_self ..)])
  rw [trim, hfirst h, hfirst fun c hc => h c (List.mem_reverse.1 hc), List.reverse_reverse]

end Text

namespace FeatureName

/-! ## The shapes of the spellings -/

/-- A small letter, then small letters, digits and hyphens. -/
def IsFileStem (text : Text) : Prop :=
  ∃ c rest, text = c :: rest ∧ c.isLower = true ∧ ∀ d ∈ rest, isKebabChar d = true

/-- A capital letter, then letters and digits. -/
def IsClassName (text : Text) : Prop :=
  ∃ c rest, text = c :: rest ∧ c.isUpper = true ∧ ∀ d ∈ rest, d.isAlphanum = true

/-- A capital letter, then capital letters, digits and underscores. -/
def IsConstantName (text : Text) : Prop :=
  ∃ c rest, text = c :: rest ∧ c.isUpper = true ∧ ∀ d ∈ rest, isConstChar d = true

variable {text other : Text} {name : FeatureName}

theorem IsSpelling.isFileStem (h : name.IsSpelling) : IsFileStem name.kebab := by
  obtain ⟨c, rest, heq, hc, hall⟩ := h.kebab
  exact ⟨c, rest, heq, hc, fun d hd => hall d (List.mem_cons_of_mem c hd)⟩

theorem IsSpelling.isClassName (h : name.IsSpelling) : IsClassName name.pascal := by
  obtain ⟨c, rest, heq, hc, hall⟩ := h.pascal
  exact ⟨c, rest, heq, hc, fun d hd => hall d (List.mem_cons_of_mem c hd)⟩

theorem IsSpelling.isConstantName (h : name.IsSpelling) : IsConstantName name.const := by
  obtain ⟨c, rest, heq, hc, hall⟩ := h.const
  exact ⟨c, rest, heq, hc, fun d hd => hall d (List.mem_cons_of_mem c hd)⟩

/-! ## A file stem is left as it is -/

/-- What the spelling for files looks at in a character: the character is small, no blank, no gap
and no capital, and may stand in a name. -/
theorem plain_of_isKebabChar {c : Char} (h : isKebabChar c = true) :
    Text.isBlank c = false ∧ isGap c = false ∧ c.isUpper = false ∧ c.toLower = c ∧
      isNameChar c = true := by
  have hall := Text.forall_ascii
    (p := fun c => !isKebabChar c ||
      !Text.isBlank c && !isGap c && !c.isUpper && c.toLower == c && isNameChar c)
    (by decide) (val_lt_of_isKebabChar h)
  simpa [h, and_assoc] using hall

theorem separateWords_eq_self (h : ∀ c ∈ text, c.isUpper = false) : separateWords text = text := by
  fun_induction separateWords text with
  | case1 a b rest hmeet _ =>
    -- nothing is put between two characters of which the second is no capital letter
    have hb := h b (List.mem_cons_of_mem _ (List.mem_cons_self ..))
    rw [hb, Bool.and_false] at hmeet
    cases hmeet
  | case2 a b rest _ ih => rw [ih fun c hc => h c (List.mem_cons_of_mem _ hc)]
  | case3 short _ => rfl

theorem hyphenateGaps_eq_self (h : ∀ c ∈ text, isGap c = false) (inGap : Bool) :
    hyphenateGaps inGap text = text := by
  induction text generalizing inGap with
  | nil => rfl
  | cons c rest ih =>
    have hc : isGap c = false := h c (List.mem_cons_self ..)
    rw [hyphenateGaps, if_neg (by simp [hc]), ih fun d hd => h d (List.mem_cons_of_mem _ hd)]

theorem IsFileStem.isKebabChar (h : IsFileStem text) : ∀ c ∈ text, isKebabChar c = true := by
  obtain ⟨c, rest, rfl, hc, hrest⟩ := h
  intro d hd
  rcases List.mem_cons.1 hd with rfl | hd
  · simp [FeatureName.isKebabChar, hc]
  · exact hrest d hd

theorem IsFileStem.trim_eq (h : IsFileStem text) : Text.trim text = text :=
  Text.trim_eq_self fun c hc => (plain_of_isKebabChar (h.isKebabChar c hc)).1

theorem IsFileStem.toKebab_eq (h : IsFileStem text) : toKebab text = text := by
  have hplain : ∀ c ∈ text, isGap c = false ∧ c.isUpper = false ∧ c.toLower = c := by
    intro c hc
    obtain ⟨-, hgap, hupper, hlower, -⟩ := plain_of_isKebabChar (h.isKebabChar c hc)
    exact ⟨hgap, hupper, hlower⟩
  have hascii : ∀ c ∈ text, c.val < 128 := fun c hc => val_lt_of_isKebabChar (h.isKebabChar c hc)
  have hmap : text.map Char.toLower = text :=
    (List.map_congr_left fun c hc => (hplain c hc).2.2).trans (List.map_id' text)
  rw [toKebab, h.trim_eq, separateWords_eq_self fun c hc => (hplain c hc).2.1,
    hyphenateGaps_eq_self fun c hc => (hplain c hc).1, Text.lower_ascii hascii, hmap]

theorem IsFileStem.isAccepted (h : IsFileStem text) : isAccepted text = true := by
  have htrim := h.trim_eq
  obtain ⟨c, rest, rfl, hc, hrest⟩ := h
  rw [FeatureName.isAccepted, htrim]
  dsimp only
  rw [Bool.and_eq_true, List.all_eq_true]
  refine ⟨Bool.or_eq_true_iff.2 (.inr hc), fun d hd => ?_⟩
  obtain ⟨-, -, -, -, hname⟩ := plain_of_isKebabChar (hrest d hd)
  exact hname

/-- All three spellings are derived from the one for files. -/
theorem spell_congr (h : toKebab other = toKebab text) : spell other = spell text := by
  rw [spell, spell, toPascal, toPascal, toConst, toConst, h]

/-- The spelling for files is accepted as a name, with the same spellings. -/
theorem ofText?_kebab (h : ofText? text = some name) : ofText? name.kebab = some name := by
  have hstem : IsFileStem name.kebab := IsSpelling.isFileStem ⟨text, h⟩
  obtain ⟨-, hname⟩ := ofText?_eq_some_iff.1 h
  have hkebab : toKebab name.kebab = toKebab text := by
    rw [hstem.toKebab_eq, ← hname, spell]
  exact ofText?_eq_some_iff.2 ⟨hstem.isAccepted, (spell_congr hkebab).trans hname⟩

/-! ## Constants tell names apart -/

/-- The character of the spelling for files in the place of one of the spelling for constants. -/
def kebabChar (c : Char) : Char := if c = '_' then '-' else c.toLower

theorem kebabChar_constChar {c : Char} (h : isKebabChar c = true) : kebabChar (constChar c) = c := by
  have hall := Text.forall_ascii (p := fun c => !isKebabChar c || kebabChar (constChar c) == c)
    (by decide) (val_lt_of_isKebabChar h)
  simpa [h] using hall

/-- The spelling for files is read off the one for constants. -/
theorem map_kebabChar_toConst (h : isAccepted text = true) :
    (toConst text).map kebabChar = toKebab text := by
  obtain ⟨c, rest, hkebab, -, hall⟩ := toKebab_of_isAccepted h
  rw [toConst_eq_map h, List.map_map, hkebab]
  exact (List.map_congr_left fun d hd => kebabChar_constChar (hall d hd)).trans (List.map_id' _)

theorem toConst_eq_iff (h : isAccepted text = true) (hother : isAccepted other = true) :
    toConst other = toConst text ↔ toKebab other = toKebab text := by
  constructor
  · intro heq
    rw [← map_kebabChar_toConst hother, heq, map_kebabChar_toConst h]
  · intro heq
    rw [toConst_eq_map hother, heq, toConst_eq_map h]

end FeatureName

/-! ## The places of the files -/

namespace Feature

open FeatureName

variable {context : Context} {name : FeatureName} {file : Path × Text}

/-- The files of a feature are reached by two proper names behind the folder of the features. -/
theorem exists_of_mem_files (hname : name.IsSpelling) (hfile : file ∈ files context name) :
    ∃ stem, IsName stem ∧
      file.1 = (context.featuresFolder.child name.kebab).child stem := by
  obtain ⟨entry, hentry, rfl⟩ := List.mem_map.1 hfile
  exact ⟨entry.1, isName_of_mem_render hname entry hentry, rfl⟩

/-- Below a normal folder the way to a proper entry of a proper entry is normal. -/
theorem normalize_child_child {base : Path} {first second : Text} (hbase : base.normalize = base)
    (hfirst : IsName first) (hsecond : IsName second) :
    ((base.child first).child second).normalize = (base.child first).child second := by
  have hnormal : Path.IsNormal (base.anchor ≠ .relative) base.names := by
    show Path.fold _ _ = _
    rw [← Path.names_normalize, hbase]
  have hmore : parentName ∉ [first, second] := by
    simp only [List.mem_cons, List.not_mem_nil, or_false, not_or]
    exact ⟨Ne.symm hfirst.2.2.1, Ne.symm hsecond.2.2.1⟩
  have hfold := hnormal.append hmore
  rw [Path.child, Path.child, List.append_assoc, Path.normalize]
  exact congrArg (Path.mk base.anchor) hfold

/-- A file of a feature belongs to the feature. -/
theorem featureOf_of_mem_files (hname : name.IsSpelling) (hfile : file ∈ files context name) :
    FeatureImports.featureOf context.featuresFolder file.1 = some name.kebab := by
  obtain ⟨stem, -, hpath⟩ := exists_of_mem_files hname hfile
  rw [FeatureImports.featureOf_eq_some_iff, hpath]
  exact ⟨rfl, [stem], List.append_assoc ..⟩

/-- Whatever is asked for as a name, either nothing is done, or its spellings are a file stem, a class
name and a constant's name, the spelling for files stands for the same name again, other names have
the same constant exactly when they have the same file stem, and every file of the feature lies in
the folder of the feature, by proper names and without turning back. -/
theorem ofText?_safe (raw : Text) :
    (ofText? raw = none ∧ ∀ (context : Context) (tree : FileTree) (request : Request),
      request.name = raw → generate context tree request = (tree, .error (.badName raw))) ∨
    ∃ name, ofText? raw = some name ∧
      IsFileStem name.kebab ∧ IsClassName name.pascal ∧ IsConstantName name.const ∧
      ofText? name.kebab = some name ∧
      (∀ other spelled, ofText? other = some spelled →
        (spelled.const = name.const ↔ spelled.kebab = name.kebab)) ∧
      ∀ context : Context, context.featuresFolder.normalize = context.featuresFolder →
        ∀ file ∈ files context name,
          (∃ stem, IsName stem ∧
            file.1 = (context.featuresFolder.child name.kebab).child stem) ∧
          file.1.normalize = file.1 ∧
          context.featuresFolder.isBelow file.1 = true ∧
          FeatureImports.featureOf context.featuresFolder file.1 = some name.kebab := by
  cases hraw : ofText? raw with
  | none =>
    refine .inl ⟨rfl, fun context tree request hrequest => ?_⟩
    rw [generate, hrequest, hraw]
  | some name =>
    have hname : name.IsSpelling := ⟨raw, hraw⟩
    refine .inr ⟨name, rfl, hname.isFileStem, hname.isClassName, hname.isConstantName,
      ofText?_kebab hraw, fun other spelled hother => ?_, fun context hnormal file hfile => ?_⟩
    · obtain ⟨haccepted, rfl⟩ := ofText?_eq_some_iff.1 hraw
      obtain ⟨hacceptedOther, rfl⟩ := ofText?_eq_some_iff.1 hother
      exact toConst_eq_iff haccepted hacceptedOther
    · obtain ⟨stem, hstem, hpath⟩ := exists_of_mem_files hname hfile
      have hfeature := featureOf_of_mem_files hname hfile
      refine ⟨⟨stem, hstem, hpath⟩, ?_, ?_, hfeature⟩
      · rw [hpath]
        exact normalize_child_child hnormal (isName_kebab hname) hstem
      · rw [Path.isBelow, Option.isSome_iff_exists]
        obtain ⟨rest, hrest, -⟩ := Option.bind_eq_some_iff.1 hfeature
        exact ⟨rest, hrest⟩

/-- A name between blanks, with a run of an underscore and a blank of another script in it and an
underscore at its end. -/
def spacedName : Text := " \u2003".toList ++ "fooBar_\u3000Baz2_".toList ++ "\u00a0\n".toList

/-- The run becomes one hyphen and so does the underscore at the end; the blanks around are gone. -/
theorem ofText?_safe_spacedName :
    ofText? spacedName = some ⟨"foo-bar-baz2-", "FooBarBaz2", "FOO_BAR_BAZ2_"⟩ ∧
      ofText? "foo-bar-baz2-" = ofText? spacedName ∧
      ∀ file ∈ files FeatureImports.smallContext (spell spacedName), file.1.normalize = file.1 ∧
        FeatureImports.featureOf FeatureImports.smallContext.featuresFolder file.1 =
          some "foo-bar-baz2-" := by
  have hspelled : ofText? spacedName = some ⟨"foo-bar-baz2-", "FooBarBaz2", "FOO_BAR_BAZ2_"⟩ := by
    decide
  rcases ofText?_safe spacedName with ⟨hnone, -⟩ | ⟨name, hname, -, -, -, hagain, -, hfiles⟩
  · rw [hspelled] at hnone
    cases hnone
  · rw [hspelled, Option.some.injEq] at hname
    subst hname
    have hspell := (ofText?_eq_some_iff.1 hspelled).2
    refine ⟨hspelled, hagain.trans hspelled.symm, fun file hfile => ?_⟩
    rw [hspell] at hfile
    obtain ⟨-, hnormal, -, hfeature⟩ := hfiles FeatureImports.smallContext (by decide) file hfile
    exact ⟨hnormal, hfeature⟩

end Feature

end VerticalSlice
