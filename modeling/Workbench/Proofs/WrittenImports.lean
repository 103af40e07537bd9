import Workbench.Proofs.ImportLines
import Workbench.Proofs.ManifestText

set_option autoImplicit false

/-! # Import configurations that are written

The configurations for compiling and for linking are put together from what a manifest binds, and
are read again by the tools. What was read from a manifest is tidy, so a line of a configuration
holds its binding as it is, but for one thing: an import path may hold the mark that stands behind
it on the line. Such a line is cut too early. So a configuration is read back if and only if none of
the import paths that it lists holds the mark. -/

namespace Workbench

/-- What a manifest binds is one of its entries. -/
theorem Manifest.mem_entries_of_get? {m : Manifest} {importPath archive : String}
    (h : m.get? importPath = some archive) : (importPath, archive) ∈ m.entries := by
  obtain ⟨before, after, hentries, -⟩ := List.lookup_eq_some_iff.1 h
  rw [hentries]
  exact List.mem_append_right before List.mem_cons_self

namespace ImportConfig

/-- An import path and an archive that stay as they are on a line. -/
structure Plain (entry : String × String) : Prop where
  source : Text.Tidy entry.1.toList
  archive : Text.Tidy entry.2.toList

/-- No import path of a configuration holds the mark that ends it. -/
def Unmarked (c : ImportConfig) : Prop := ∀ entry ∈ c.entries, '=' ∉ entry.1.toList

instance (c : ImportConfig) : Decidable c.Unmarked :=
  inferInstanceAs (Decidable (∀ entry ∈ c.entries, '=' ∉ entry.1.toList))

/-- A configuration of plain bindings is read back if and only if it is unmarked. -/
theorem parse_toText_iff {c : ImportConfig} (h : ∀ entry ∈ c.entries, Plain entry) :
    parse c.toText = c ↔ c.Unmarked := by
  constructor
  · intro hread entry hentry
    -- whatever is read is cut at the first mark
    rw [← hread] at hentry
    exact (legible_of_parse hentry).unmarked
  · intro hunmarked
    refine parse_toText fun entry hentry => ?_
    exact ⟨(h entry hentry).source, hunmarked entry hentry, (h entry hentry).archive⟩

variable {text : String} {m : Manifest}

theorem plain_of_parse (hm : Manifest.parse text = .ok m) {entry : String × String}
    (hentry : entry ∈ m.entries) : Plain entry := by
  have hlegible := (Manifest.legible_of_parse hm).2 entry hentry
  exact ⟨hlegible.source, hlegible.stored⟩

/-- What is listed for compiling is bound as in the manifest. -/
theorem get?_of_mem_compile {imports : List String} {entry : String × String}
    (h : entry ∈ (compile imports m).entries) : m.get? entry.1 = some entry.2 := by
  obtain ⟨importPath, -, hbound⟩ := List.mem_filterMap.1 h
  obtain ⟨archive, hget, rfl⟩ := Option.map_eq_some_iff.1 hbound
  exact hget

theorem plain_compile (hm : Manifest.parse text = .ok m) (imports : List String) :
    ∀ entry ∈ (compile imports m).entries, Plain entry := by
  intro entry hentry
  exact plain_of_parse hm (Manifest.mem_entries_of_get? (get?_of_mem_compile hentry))

theorem plain_link (hm : Manifest.parse text = .ok m) (imports : List String)
    {mainArchive : String} (hmain : Text.Tidy mainArchive.toList) (scope : LinkScope) :
    ∀ entry ∈ (link imports m mainArchive scope).entries, Plain entry := by
  intro entry hentry
  rcases List.mem_cons.1 hentry with rfl | hentry
  · have hname : Text.Tidy mainPackage.toList := by decide
    exact ⟨hname, hmain⟩
  · cases scope with
    | direct => exact plain_compile hm imports entry hentry
    | closure => exact plain_of_parse hm hentry

/-- What is written for a source and a manifest is read back, for compiling and for linking, if and
    only if none of the import paths that are listed holds the mark. -/
theorem parse_written_iff (hm : Manifest.parse text = .ok m) (source : String) :
    (parse (compile (Source.imports source) m).toText = compile (Source.imports source) m ↔
      (compile (Source.imports source) m).Unmarked) ∧
    ∀ (scope : LinkScope) (mainArchive : String), Text.Tidy mainArchive.toList →
      (parse (link (Source.imports source) m mainArchive scope).toText =
          link (Source.imports source) m mainArchive scope ↔
        (link (Source.imports source) m mainArchive scope).Unmarked) := by
  refine ⟨parse_toText_iff (plain_compile hm _), fun scope mainArchive hmain => ?_⟩
  exact parse_toText_iff (plain_link hm _ hmain scope)

/-- A source with two imports, one of which a manifest binds, and a second package that is linked. -/
theorem parse_written_two :
    let source := "package main\nimport x \"a b\"\nimport \"os\"\n"
    ∃ m, Manifest.parse "a b -> /x=y\nfmt -> /fmt\n" = .ok m ∧
      Text.Tidy "/tmp/main.a".toList ∧
      parse "packagefile a b=/x=y\n" = compile (Source.imports source) m ∧
      parse (link (Source.imports source) m "/tmp/main.a" .closure).toText =
        ⟨[(mainPackage, "/tmp/main.a"), ("a b", "/x=y"), ("fmt", "/fmt")]⟩ := by
  intro source
  have hm : Manifest.parse "a b -> /x=y\nfmt -> /fmt\n" =
      .ok ⟨[("a b", "/x=y"), ("fmt", "/fmt")]⟩ := by decide +kernel
  have himports : Source.imports source = ["a b", "os"] := by decide +kernel
  have hmain : Text.Tidy "/tmp/main.a".toList := by decide
  obtain ⟨hcompile, hlink⟩ := parse_written_iff hm source
  rw [himports] at hcompile hlink
  rw [himports]
  exact ⟨_, hm, hmain, hcompile.2 (by decide), (hlink .closure "/tmp/main.a" hmain).2 (by decide)⟩

/-- An import path that holds the mark is cut at it. -/
theorem exists_parse_compile_ne : ¬ ∀ (text source : String) (m : Manifest),
    Manifest.parse text = .ok m →
    parse (compile (Source.imports source) m).toText = compile (Source.imports source) m := by
  intro h
  have hm : Manifest.parse "a=b -> /x\n" = .ok ⟨[("a=b", "/x")]⟩ := by decide +kernel
  have himports : Source.imports "package main\nimport \"a=b\"\n" = ["a=b"] := by decide +kernel
  have hread := h _ "package main\nimport \"a=b\"\n" _ hm
  rw [himports, parse_toText_iff (plain_compile hm _)] at hread
  exact absurd hread (by decide)

end ImportConfig

end Workbench
