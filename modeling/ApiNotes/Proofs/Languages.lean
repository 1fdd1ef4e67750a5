/-
What a registry still finds when only some of its languages are kept.

A registry is searched from the front, and the first language that fits is the answer.  Leaving
languages out does not change the order of the others, so an answer that is kept stays the answer,
and one that is left out makes room for the next language that fits.  All languages of one name are
kept or left out together, since names are compared without regard to case wherever that happens.
-/
import ApiNotes.Config
import ApiNotes.Proofs.Checks
import ApiNotes.Proofs.SourceFiles

namespace ApiNotes

/-! ### Named languages -/

namespace Language

/-- A language has a name, whatever the case of either. -/
def HasName (language : Language) (name : String) : Prop := Text.SameLetters language.name name

/-- A language has one of some names. -/
def IsAmong (language : Language) (names : List String) : Prop :=
  ∃ name ∈ names, language.HasName name

/-- A language takes the file that a path leads to, by the name of the file. -/
def TakesFile (language : Language) (path : String) : Prop :=
  ∃ name, Path.fileName? path = some name ∧ language.Takes name

instance (language : Language) (name : String) : Decidable (language.HasName name) :=
  inferInstanceAs (Decidable (Text.SameLetters language.name name))

instance (language : Language) (names : List String) : Decidable (language.IsAmong names) :=
  inferInstanceAs (Decidable (∃ name ∈ names, language.HasName name))

theorem isNamed_iff {language : Language} {name : String} :
    language.isNamed name = true ↔ language.HasName name :=
  Text.eqIgnoreCase_iff_sameLetters

theorem any_isNamed_iff {language : Language} {names : List String} :
    names.any language.isNamed = true ↔ language.IsAmong names := by
  simp only [List.any_eq_true, isNamed_iff, IsAmong]

theorem claims_iff_takesFile {language : Language} {path : String} :
    language.claims path = true ↔ language.TakesFile path := by
  cases hname : Path.fileName? path with
  | none =>
      have hextension : Path.extension? path = none := by
        rw [Path.extension?, hname]
        rfl
      simp [claims, TakesFile, hextension, hname]
  | some name => simp [TakesFile, hname, claims_iff hname]

instance (language : Language) (path : String) : Decidable (language.TakesFile path) :=
  decidable_of_iff _ claims_iff_takesFile

end Language

/-! ### Searching what is kept -/

namespace Registry

variable {registry : Registry} {names : List String} {language : Language}

theorem mem_only : language ∈ (registry.only names).languages ↔
    language ∈ registry.languages ∧ language.IsAmong names := by
  rw [only, List.mem_filter, Language.any_isNamed_iff]

/-- A search of what is kept finds the first language that fits, past those that are left out. -/
theorem find?_only_eq_some_iff {p : Language → Bool} :
    (registry.only names).languages.find? p = some language ↔
      (language.IsAmong names ∧ p language = true) ∧
        ∃ before after, registry.languages = before ++ language :: after ∧
          ∀ earlier ∈ before, earlier.IsAmong names → ¬p earlier = true := by
  rw [only, List.find?_filter, List.find?_eq_some_iff_append]
  simp only [Language.any_isNamed_iff, Bool.decide_and, Bool.decide_eq_true, Bool.and_eq_true,
    decide_eq_true_eq, Bool.not_eq_true', Bool.and_eq_false_imp, Bool.not_eq_true]

/-- What a search finds is still found when it is kept. -/
theorem find?_only_of_isAmong {p : Language → Bool}
    (h : registry.languages.find? p = some language) (hkept : language.IsAmong names) :
    (registry.only names).languages.find? p = some language := by
  obtain ⟨hfits, before, after, hsplit, hbefore⟩ := List.find?_eq_some_iff_append.mp h
  refine find?_only_eq_some_iff.mpr ⟨⟨hkept, hfits⟩, before, after, hsplit, ?_⟩
  intro earlier hearlier _
  simpa using hbefore earlier hearlier

/-- A search of what is kept finds nothing when nothing that is kept fits. -/
theorem find?_only_eq_none {p : Language → Bool} :
    (registry.only names).languages.find? p = none ↔
      ∀ language ∈ registry.languages, language.IsAmong names → ¬p language = true := by
  rw [List.find?_eq_none]
  simp only [mem_only, and_imp]

theorem mem_of_get? {name : String} (h : registry.get? name = some language) :
    language ∈ registry.languages ∧ language.HasName name :=
  ⟨List.mem_of_find?_eq_some h,
    Language.isNamed_iff.mp (List.find?_some (p := fun l : Language => l.isNamed name) h)⟩

/-- A name that is listed is looked up as before: all languages that have it are kept. -/
theorem get?_only_of_named {name : String} (h : ∃ kept ∈ names, Text.SameLetters kept name) :
    (registry.only names).get? name = registry.get? name := by
  obtain ⟨kept, hkept, hsame⟩ := h
  cases hget : registry.get? name with
  | none =>
      refine find?_only_eq_none.mpr fun language hlanguage _ => ?_
      exact List.find?_eq_none.mp hget language hlanguage
  | some language =>
      have hname := (mem_of_get? hget).2
      exact find?_only_of_isAmong hget ⟨kept, hkept, hname.trans hsame.symm⟩

/-- A name that is not listed is the name of no language that is kept. -/
theorem get?_only_of_unnamed {name : String} (h : ¬∃ kept ∈ names, Text.SameLetters kept name) :
    (registry.only names).get? name = none := by
  refine find?_only_eq_none.mpr fun language _ hkept hname => h ?_
  obtain ⟨kept, hmem, hsame⟩ := hkept
  exact ⟨kept, hmem, hsame.symm.trans (Language.isNamed_iff.mp hname)⟩

/-- It does not matter in which order languages are left out. -/
theorem only_only_comm (registry : Registry) (names others : List String) :
    (registry.only names).only others = (registry.only others).only names := by
  simp only [only, List.filter_filter, Bool.and_comm]

end Registry

/-! ### The languages of an input -/

/-- An input that passed its check reads some language, and one for each name that it lists. -/
theorem Input.registry_of_check {registry : Registry} {input : Input}
    (h : Input.check registry input = .ok ()) (hknown : registry.languages ≠ []) :
    (input.registry registry).languages ≠ [] ∧ ∀ name ∈ input.languages,
      ∃ language ∈ (input.registry registry).languages, language.HasName name := by
  rw [Input.check, check_bind_eq_ok, Check.each_eq_ok] at h
  by_cases hall : input.languages = []
  · simpa [Input.registry, hall] using hknown
  · have hregistry : input.registry registry = registry.only input.languages := by
      simp [Input.registry, hall]
    have hnamed : ∀ name ∈ input.languages,
        ∃ language ∈ (input.registry registry).languages, language.HasName name := by
      intro name hname
      obtain ⟨language, hget⟩ := Option.isSome_iff_exists.mp
        (Check.ensure_eq_ok.mp (h.2 name hname))
      rw [← Registry.get?_only_of_named ⟨name, hname, .refl name⟩, ← hregistry] at hget
      exact ⟨language, Registry.mem_of_get? hget⟩
    obtain ⟨name, hname⟩ := List.exists_mem_of_ne_nil _ hall
    obtain ⟨language, hlanguage, -⟩ := hnamed name hname
    exact ⟨List.ne_nil_of_mem hlanguage, hnamed⟩

theorem Config.input_check_of_check {registry : Registry} {config : Config}
    (h : Config.check registry config = .ok ()) :
    ∀ input ∈ config.inputs, Input.check registry input = .ok () := by
  simp only [Config.check, check_bind_eq_ok, Check.each_eq_ok] at h
  exact h.2.2.2.2

/-! ### Restriction -/

namespace Registry

/-- What is kept of a registry when it is restricted to some names. -/
structure Restriction (registry kept : Registry) (names : List String) : Prop where
  /-- The languages that are kept stand in the order of the registry. -/
  ordered : kept.languages.Sublist registry.languages
  /-- A language with one of the names is kept in all its places. -/
  complete : ∀ language : Language, language.IsAmong names →
    kept.languages.count language = registry.languages.count language
  /-- A language with none of the names is not kept. -/
  sound : ∀ language ∈ kept.languages, language.IsAmong names
  /-- One of the names leads to the same language as before. -/
  named : ∀ name, (∃ listed ∈ names, Text.SameLetters listed name) →
    kept.get? name = registry.get? name
  /-- No other name leads anywhere. -/
  unnamed : ∀ name, (¬∃ listed ∈ names, Text.SameLetters listed name) → kept.get? name = none
  /-- A file stays in its language if that is kept. -/
  detected : ∀ path language, registry.detect? path = some language → language.IsAmong names →
    kept.detect? path = some language
  /-- A file is in the first language that takes it among those with one of the names. -/
  first : ∀ path language, kept.detect? path = some language ↔
    (language.IsAmong names ∧ language.TakesFile path) ∧
      ∃ before after, registry.languages = before ++ language :: after ∧
        ∀ earlier ∈ before, earlier.IsAmong names → ¬earlier.TakesFile path
  /-- A file is in no language when no language with one of the names takes it. -/
  undetected : ∀ path, kept.detect? path = none ↔
    ∀ language ∈ registry.languages, language.IsAmong names → ¬language.TakesFile path

/-- **Restricting a registry keeps its answers consistent.**  The order of the languages stays, and
so does what the names and the files lead to, as far as it is kept; the order of two restrictions
does not matter.  So an input of a checked configuration always reads some language, and one for
each name that it lists. -/
theorem only_consistent (registry : Registry) (names others : List String) :
    Restriction registry (registry.only names) names ∧
    (registry.only names).only others = (registry.only others).only names ∧
    ∀ config : Config, Config.check registry config = .ok () → registry.languages ≠ [] →
      ∀ input ∈ config.inputs, (input.registry registry).languages ≠ [] ∧
        ∀ name ∈ input.languages,
          ∃ language ∈ (input.registry registry).languages, language.HasName name := by
  refine ⟨?_, only_only_comm registry names others, fun config h hknown input hinput => ?_⟩
  · exact {
      ordered := List.filter_sublist
      complete := fun language h => List.count_filter (Language.any_isNamed_iff.mpr h)
      sound := fun language h => (mem_only.mp h).2
      named := fun name h => get?_only_of_named h
      unnamed := fun name h => get?_only_of_unnamed h
      detected := fun path language h hkept => find?_only_of_isAmong h hkept
      first := fun path language => by
        rw [detect?, find?_only_eq_some_iff]
        simp only [Language.claims_iff_takesFile]
      undetected := fun path => by
        rw [detect?, find?_only_eq_none]
        simp only [Language.claims_iff_takesFile] }
  · exact Input.registry_of_check (Config.input_check_of_check h input hinput) hknown

/-- A configuration of two inputs, one of which lists languages in capitals. -/
def twoInputs : Config where
  version := "0.1.0"
  inputs := [{ directory := "lib", languages := ["CPP", "Ruby"] }, { directory := "api" }]
  output := some {}

/-- In a registry without the language `c`, the language `cpp` keeps its files and comes to those of
`c`, which it takes as well. -/
theorem only_cppAndRuby :
    (standard.only ["CPP", "Ruby"]).get? "Cpp" = standard.get? "Cpp" ∧
    (standard.only ["CPP", "Ruby"]).get? "c" = none ∧
    (∃ cpp, standard.detect? "lib/pets.HPP" = some cpp ∧ cpp.IsAmong ["CPP", "Ruby"] ∧
      (standard.only ["CPP", "Ruby"]).detect? "lib/pets.HPP" = some cpp ∧
      standard.detect? "lib/pets.c" ≠ some cpp ∧
      (standard.only ["CPP", "Ruby"]).detect? "lib/pets.c" = some cpp) ∧
    (standard.only ["CPP", "Ruby"]).detect? "lib/pets.go" = none ∧
    Config.check standard twoInputs = .ok () ∧ standard.languages ≠ [] ∧
    ∀ input ∈ twoInputs.inputs, (input.registry standard).languages ≠ [] := by
  obtain ⟨hkept, -, hinputs⟩ := only_consistent standard ["CPP", "Ruby"] []
  have hcpp : standard.detect? "lib/pets.HPP" =
      some ⟨"cpp", [".h", ".cpp", ".cxx", ".hpp", ".c"], .slash⟩ := by decide +kernel
  have hcheck : Config.check standard twoInputs = .ok () := by decide +kernel
  have hknown : standard.languages ≠ [] := by decide
  refine ⟨hkept.named "Cpp" (by decide +kernel), hkept.unnamed "c" (by decide +kernel),
    ⟨_, hcpp, by decide +kernel, hkept.detected _ _ hcpp (by decide +kernel), by decide +kernel,
      by decide +kernel⟩, (hkept.undetected _).mpr (by decide +kernel), hcheck, hknown,
    fun input hinput => (hinputs twoInputs hcheck hknown input hinput).1⟩

end Registry

end ApiNotes
