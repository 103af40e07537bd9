import Workbench.Proofs.ManifestLog
import Workbench.Proofs.WrittenImports

set_option autoImplicit false

/-! # What a linker is told of

A configuration for linking begins with the main package, bound to the archive that was just
compiled. What follows is selected from the manifest, by the imports of the source or as a whole, so
each import path stands there once: a scanner notes a path only if it is new, and a manifest that was
read binds no path twice. The main package itself is kept out by neither of them. Where the manifest
binds it, and the scope selects it, it is listed once more. -/

namespace Workbench

/-! ## Imports that are noted -/

namespace Source

namespace Scanner

variable {s : Scanner}

theorem nodup_note (h : s.found.Nodup) (text : List Char) : (s.note text).found.Nodup := by
  unfold note
  split
  · next path _ =>
    split
    · exact h
    · next hnew =>
      have hnot : path ∉ s.found := by simpa using hnew
      exact h.append (List.nodup_singleton path) (List.disjoint_singleton.2 hnot)
  · exact h

theorem nodup_openBlock (h : s.found.Nodup) (inner : List Char) :
    (s.openBlock inner).found.Nodup := by
  unfold openBlock
  dsimp only
  split
  · exact h
  · split
    · exact nodup_note h _
    · exact nodup_note (s := { s with inBlock := true }) h _

theorem nodup_topLine (h : s.found.Nodup) (line : List Char) : (s.topLine line).found.Nodup := by
  unfold topLine
  split
  · exact h
  · split
    · exact h
    · split
      · exact nodup_openBlock h _
      · exact nodup_note h _

theorem nodup_codeLine (h : s.found.Nodup) (line : List Char) :
    (s.codeLine line).found.Nodup := by
  unfold codeLine blockLine
  split
  · exact h
  · split
    · split
      · exact h
      · exact nodup_note h line
    · exact nodup_topLine h line

/-- No line of a file makes a path be found twice. -/
theorem nodup_step (h : s.found.Nodup) (raw : List Char) : (s.step raw).found.Nodup := by
  unfold step
  split
  · exact h
  · split
    · exact h
    · dsimp only
      split
      · exact h
      · exact nodup_codeLine (s := { s with inComment := false }) h _

theorem nodup_foldl_step (h : s.found.Nodup) (lines : List (List Char)) :
    (lines.foldl step s).found.Nodup := by
  induction lines generalizing s with
  | nil => exact h
  | cons raw lines ih => exact ih (nodup_step h raw)

end Scanner

theorem nodup_imports (source : String) : (imports source).Nodup :=
  Scanner.nodup_foldl_step List.nodup_nil _

end Source

namespace Manifest

variable {m : Manifest} {importPath : String}

theorem get?_of_mem_entries (hm : m.names.Nodup) {entry : String × String}
    (h : entry ∈ m.entries) : m.get? entry.1 = some entry.2 :=
  (mem_iff_lookup_eq_some hm).1 h

theorem contains_iff_mem_names : m.contains importPath = true ↔ importPath ∈ m.names := by
  rw [contains]
  constructor
  · intro h
    by_contra hnone
    rw [get?_eq_none hnone] at h
    cases h
  · intro h
    obtain ⟨entry, hentry, rfl⟩ := List.mem_map.1 h
    exact List.lookup_isSome_iff.2 ⟨entry, hentry, beq_self_eq_true _⟩

end Manifest

/-! ## Configurations for linking -/

/-- The packages that a scope selects, in order. -/
def LinkScope.selected (scope : LinkScope) (imports : List String) (m : Manifest) : List String :=
  match scope with
  | .direct => imports.filter m.contains
  | .closure => m.names

theorem LinkScope.mem_selected {scope : LinkScope} {imports : List String} {m : Manifest}
    {importPath : String} : importPath ∈ scope.selected imports m ↔
      m.contains importPath = true ∧ (scope = .closure ∨ importPath ∈ imports) := by
  cases scope with
  | direct => simp [selected, List.mem_filter, and_comm]
  | closure => simp [selected, Manifest.contains_iff_mem_names]

theorem LinkScope.nodup_selected (scope : LinkScope) {imports : List String} {m : Manifest}
    (himports : imports.Nodup) (hm : m.names.Nodup) : (scope.selected imports m).Nodup := by
  cases scope with
  | direct => exact himports.filter _
  | closure => exact hm

namespace ImportConfig

variable {imports : List String} {m : Manifest}

theorem map_fst_compile (imports : List String) (m : Manifest) :
    (compile imports m).entries.map Prod.fst = imports.filter m.contains := by
  unfold compile
  induction imports with
  | nil => rfl
  | cons importPath imports ih =>
    cases hget : m.get? importPath with
    | none => simpa [Manifest.contains, hget] using ih
    | some archive => simpa [Manifest.contains, hget] using ih

/-- A configuration binds the main package to an archive, and behind it packages, each of them once,
    to what the manifest binds them to. -/
structure Links (c : ImportConfig) (mainArchive : String) (packages : List String) (m : Manifest) :
    Prop where
  main : c.entries.head? = some (mainPackage, mainArchive)
  listed : c.entries.tail.map Prod.fst = packages
  distinct : packages.Nodup
  bound : ∀ entry ∈ c.entries.tail, m.get? entry.1 = some entry.2

theorem links_link (himports : imports.Nodup) (hm : m.names.Nodup) (mainArchive : String)
    (scope : LinkScope) :
    Links (link imports m mainArchive scope) mainArchive (scope.selected imports m) m where
  main := rfl
  listed := by
    cases scope with
    | direct => exact map_fst_compile imports m
    | closure => rfl
  distinct := scope.nodup_selected himports hm
  bound := by
    intro entry hentry
    cases scope with
    | direct => exact get?_of_mem_compile hentry
    | closure => exact Manifest.get?_of_mem_entries hm hentry

/-- How often a package is listed. -/
def occurrences (c : ImportConfig) (importPath : String) : Nat :=
  (c.entries.map Prod.fst).count importPath

/-- The main package is listed once before the others, and once among them if it is one of them. -/
theorem Links.occurrences_main {c : ImportConfig} {mainArchive : String} {packages : List String}
    (h : Links c mainArchive packages m) :
    c.occurrences mainPackage = if mainPackage ∈ packages then 2 else 1 := by
  obtain ⟨rest, hentries⟩ := List.head?_eq_some_iff.1 h.main
  have hlisted := h.listed
  rw [hentries, List.tail_cons] at hlisted
  rw [occurrences, hentries, List.map_cons, List.count_cons_self, hlisted]
  split
  · next hmem => rw [List.count_eq_one_of_mem h.distinct hmem]
  · next hnot => rw [List.count_eq_zero_of_not_mem hnot]

/-- For every source and every manifest that was read, the configuration for linking begins with the
    main package, bound to the archive just compiled, and goes on with the packages that the scope
    selects, each of them once and bound as in the manifest. So the main package is listed once, or
    once more if the manifest binds it and it is selected. -/
theorem link_of_parse {text : String} {m : Manifest} (hm : Manifest.parse text = .ok m)
    (source mainArchive : String) (scope : LinkScope) :
    Links (link (Source.imports source) m mainArchive scope) mainArchive
        (scope.selected (Source.imports source) m) m ∧
      ((link (Source.imports source) m mainArchive scope).occurrences mainPackage = 1 ↔
        ¬ (m.contains mainPackage = true ∧
          (scope = .closure ∨ mainPackage ∈ Source.imports source))) := by
  have hlinks := links_link (Source.nodup_imports source) (Manifest.names_nodup_of_parse hm)
    mainArchive scope
  refine ⟨hlinks, ?_⟩
  rw [hlinks.occurrences_main, ← LinkScope.mem_selected]
  split
  · next hmem => simp [hmem]
  · next hnot => simp [hnot]

/-- A source that names a package twice and one that is unknown, and a manifest that binds a package
    twice and the main package, too: only as a whole the manifest lists the main package again. -/
theorem link_of_parse_selected :
    let source := "package main\nimport \"os\"\nimport (\n\"fmt\"\n\"os\"\n\"local\"\n)\n"
    ∃ m, Manifest.parse
        "fmt -> /old\nos -> /os\ncommand-line-arguments -> /main\nfmt -> /fmt\n" = .ok m ∧
      Links (link (Source.imports source) m "/tmp/main.a" .direct) "/tmp/main.a" ["os", "fmt"] m ∧
      (link (Source.imports source) m "/tmp/main.a" .direct).occurrences mainPackage = 1 ∧
      Links (link (Source.imports source) m "/tmp/main.a" .closure) "/tmp/main.a"
        ["fmt", "os", mainPackage] m ∧
      (link (Source.imports source) m "/tmp/main.a" .closure).occurrences mainPackage ≠ 1 := by
  intro source
  have hm : Manifest.parse
      "fmt -> /old\nos -> /os\ncommand-line-arguments -> /main\nfmt -> /fmt\n" =
        .ok ⟨[("fmt", "/fmt"), ("os", "/os"), (mainPackage, "/main")]⟩ := by decide +kernel
  have himports : Source.imports source = ["os", "fmt", "local"] := by decide +kernel
  obtain ⟨hdirect, honce⟩ := link_of_parse hm source "/tmp/main.a" .direct
  obtain ⟨hclosure, htwice⟩ := link_of_parse hm source "/tmp/main.a" .closure
  rw [himports] at hdirect honce hclosure htwice
  rw [himports]
  exact ⟨_, hm, hdirect, honce.2 (by decide), hclosure, mt htwice.1 (by decide)⟩

/-- A manifest that binds the main package makes it be listed twice. -/
theorem exists_main_twice : ¬ ∀ (text source mainArchive : String) (m : Manifest)
    (scope : LinkScope), Manifest.parse text = .ok m →
    (link (Source.imports source) m mainArchive scope).occurrences mainPackage = 1 := by
  intro h
  have hm : Manifest.parse "command-line-arguments -> /x.a\n" =
      .ok ⟨[(mainPackage, "/x.a")]⟩ := by decide +kernel
  have honce := h _ "package main\n" "/tmp/main.a" _ .closure hm
  revert honce
  decide +kernel

end ImportConfig

end Workbench
