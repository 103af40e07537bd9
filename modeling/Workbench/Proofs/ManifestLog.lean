import Workbench.Proofs.ManifestText

set_option autoImplicit false

/-! # A manifest as the fold of its log

The text of a manifest is a log. A line in which nothing can be seen says nothing, and any other is
in order if an arrow stands in it with something to be seen on both sides of the first one; then it
binds what stands before that arrow to what stands behind it. A log in which every line is in order
is read as the manifest that has the import paths in the order of their first lines, each bound by
its last line, and any other is refused at the first line that is not in order. So the logs that are
read one after the other are read as one. -/

namespace Workbench

namespace Text

/-- Something in a text can be seen. -/
def Visible (s : List Char) : Prop := ∃ c ∈ s, isBlank c = false

theorem not_visible_iff {s : List Char} : ¬ Visible s ↔ ∀ c ∈ s, isBlank c = true := by
  simp [Visible]

theorem trim_eq_nil_iff {s : List Char} : trim s = [] ↔ ¬ Visible s := by
  constructor
  · rintro hnil ⟨c, hc, hblank⟩
    rw [trim, trimEnd, dropEndWhile, List.reverse_eq_nil_iff, List.dropWhile_eq_nil_iff] at hnil
    -- what is left at the start would begin with the character that can be seen
    obtain ⟨before, after, rfl⟩ := List.append_of_mem hc
    have hstart : c ∈ trimStart (before ++ c :: after) := by
      rw [trimStart, List.dropWhile_append]
      split
      · simp [hblank]
      · simp
    have hall := hnil c (List.mem_reverse.2 hstart)
    rw [hblank] at hall
    cases hall
  · intro hnone
    rw [trim, trimStart, List.dropWhile_eq_nil_iff.2 (not_visible_iff.1 hnone)]
    rfl

theorem trim_isEmpty_iff {s : List Char} : (trim s).isEmpty = true ↔ ¬ Visible s := by
  rw [List.isEmpty_iff, trim_eq_nil_iff]

end Text

namespace Manifest

/-! ## Lines -/

/-- A line holds a binding: between its blank ends stands an arrow, and something can be seen on both
    sides of the first one. -/
def Holds (raw : List Char) (entry : String × String) : Prop :=
  ∃ before after, Text.trim raw = before ++ (arrow.toList ++ after) ∧
    (∀ front rest, Text.trim raw = front ++ (arrow.toList ++ rest) →
      before.length ≤ front.length) ∧
    Text.Visible before ∧ Text.Visible after ∧
    entry = (String.ofList (Text.trim before), String.ofList (Text.trim after))

/-- A line is in order if nothing can be seen in it or it holds a binding. -/
def InOrder (raw : List Char) : Prop := ¬ Text.Visible raw ∨ ∃ entry, Holds raw entry

theorem columns?_trim_eq_some_iff {raw : List Char} {entry : String × String} :
    columns? (Text.trim raw) = some entry ↔ Holds raw entry := by
  constructor
  · intro h
    unfold columns? at h
    split at h
    · cases h
    · next before after hcut =>
      obtain ⟨hline, hfirst⟩ := (Text.cut?_eq_some_iff (by decide)).1 hcut
      dsimp only at h
      split at h
      · cases h
      · next hne =>
        simp only [Bool.or_eq_true, Text.trim_isEmpty_iff, not_or, not_not] at hne
        exact ⟨before, after, hline, hfirst, hne.1, hne.2, (Option.some.inj h).symm⟩
  · rintro ⟨before, after, hline, hfirst, hbefore, hafter, rfl⟩
    refine columns?_of_cut? ((Text.cut?_eq_some_iff (by decide)).2 ⟨hline, hfirst⟩) ?_ ?_
    · exact fun hnil => Text.trim_eq_nil_iff.1 hnil hbefore
    · exact fun hnil => Text.trim_eq_nil_iff.1 hnil hafter

theorem Holds.visible {raw : List Char} {entry : String × String} (h : Holds raw entry) :
    Text.Visible raw := by
  obtain ⟨before, after, hline, -⟩ := h
  by_contra hnone
  rw [Text.trim_eq_nil_iff.2 hnone] at hline
  have harrow : arrow.toList ≠ [] := by decide
  simp [harrow] at hline

/-- The bindings that the lines of a log hold, in order. -/
inductive Logs : List (List Char) → List (String × String) → Prop
  | nil : Logs [] []
  | blank {raw : List Char} {lines : List (List Char)} {log : List (String × String)} :
      ¬ Text.Visible raw → Logs lines log → Logs (raw :: lines) log
  | binding {raw : List Char} {lines : List (List Char)} {entry : String × String}
      {log : List (String × String)} :
      Holds raw entry → Logs lines log → Logs (raw :: lines) (entry :: log)

/-- The lines that hold bindings are those that are in order. -/
theorem exists_logs_iff {lines : List (List Char)} :
    (∃ log, Logs lines log) ↔ ∀ raw ∈ lines, InOrder raw := by
  constructor
  · rintro ⟨log, h⟩
    induction h with
    | nil => exact fun raw hraw => absurd hraw List.not_mem_nil
    | blank hnone _ ih => exact List.forall_mem_cons.2 ⟨.inl hnone, ih⟩
    | binding hholds _ ih => exact List.forall_mem_cons.2 ⟨.inr ⟨_, hholds⟩, ih⟩
  · intro h
    induction lines with
    | nil => exact ⟨[], .nil⟩
    | cons raw lines ih =>
      obtain ⟨hraw, hrest⟩ := List.forall_mem_cons.1 h
      obtain ⟨log, hlog⟩ := ih hrest
      rcases hraw with hnone | ⟨entry, hholds⟩
      · exact ⟨log, .blank hnone hlog⟩
      · exact ⟨entry :: log, .binding hholds hlog⟩

theorem Logs.append {lines lines' : List (List Char)} {log log' : List (String × String)}
    (h : Logs lines log) (h' : Logs lines' log') : Logs (lines ++ lines') (log ++ log') := by
  induction h with
  | nil => exact h'
  | blank hnone _ ih => exact .blank hnone ih
  | binding hholds _ ih => exact .binding hholds ih

/-! ## Folding a log -/

theorem nodup_names_empty : empty.names.Nodup := List.nodup_nil

theorem get?_cons (source stored : String) (entries : List (String × String)) (name : String) :
    (⟨(source, stored) :: entries⟩ : Manifest).get? name =
      if name = source then some stored else (⟨entries⟩ : Manifest).get? name := by
  rw [get?, List.lookup_cons]
  by_cases hname : name = source
  · simp [hname]
  · have hfalse : (name == source) = false := by simpa using hname
    rw [hfalse, if_neg hname]
    rfl

theorem get?_eq_none {m : Manifest} {name : String} (h : name ∉ m.names) : m.get? name = none := by
  rw [get?, List.lookup_eq_none_iff]
  intro entry hentry
  rw [bne_iff_ne]
  rintro rfl
  exact h (List.mem_map_of_mem hentry)

/-- Bind the import paths of a log, one after the other. -/
def update (m : Manifest) (log : List (String × String)) : Manifest :=
  log.foldl (fun m entry => m.insert entry.1 entry.2) m

theorem update_append (m : Manifest) (log log' : List (String × String)) :
    m.update (log ++ log') = (m.update log).update log' :=
  List.foldl_append

theorem update_concat (m : Manifest) (log : List (String × String)) (entry : String × String) :
    m.update (log ++ [entry]) = (m.update log).insert entry.1 entry.2 :=
  update_append m log [entry]

/-- The import paths of a log come behind those that are bound, in order of first appearance. -/
theorem names_update {m : Manifest} (hm : m.names.Nodup) (log : List (String × String)) :
    (m.update log).names = (m.names ++ log.map Prod.fst).eraseDups := by
  induction log using List.reverseRecOn with
  | nil => rw [List.map_nil, List.append_nil, eraseDups_of_nodup hm, update, List.foldl_nil]
  | append_singleton log entry ih =>
    rw [update_concat, names_insert, ih, List.map_append, ← List.append_assoc, List.map_singleton,
      eraseDups_concat]
    simp only [List.mem_eraseDups]

theorem nodup_names_update {m : Manifest} (hm : m.names.Nodup) (log : List (String × String)) :
    (m.update log).names.Nodup := by
  rw [names_update hm]
  exact nodup_eraseDups _

/-- The last binding of an import path in a log holds. -/
theorem get?_update (m : Manifest) (log : List (String × String)) (name : String) :
    (m.update log).get? name = (log.reverse.lookup name).or (m.get? name) := by
  induction log using List.reverseRecOn with
  | nil => rfl
  | append_singleton log entry ih =>
    obtain ⟨source, stored⟩ := entry
    rw [update_concat, get?_insert, ih, List.reverse_append, List.reverse_singleton,
      List.singleton_append, List.lookup_cons]
    by_cases hname : name = source
    · simp [hname]
    · have hfalse : (name == source) = false := by simpa using hname
      rw [if_neg hname, hfalse]

/-- A manifest is known by its import paths in their order and by what they are bound to. -/
theorem eq_of_get? {m n : Manifest} (hm : m.names.Nodup) (hnames : m.names = n.names)
    (hget : ∀ name, m.get? name = n.get? name) : m = n := by
  obtain ⟨entries⟩ := m
  obtain ⟨entries'⟩ := n
  congr 1
  induction entries generalizing entries' with
  | nil => exact (List.map_eq_nil_iff.1 hnames.symm).symm
  | cons entry entries ih =>
    obtain ⟨name, value⟩ := entry
    obtain ⟨⟨name', value'⟩, rest', rfl, rfl, hrest⟩ := List.map_eq_cons_iff.1 hnames.symm
    obtain ⟨hnew, hnodup⟩ := List.nodup_cons.1 hm
    have hvalue : value = value' := by simpa [get?_cons] using hget name'
    have hrests : entries = rest' := by
      refine ih hnodup rest' hrest.symm fun other => ?_
      by_cases hother : other = name'
      · -- the first import path is bound in neither of the rests
        subst hother
        have hnew' : other ∉ rest'.map Prod.fst := by rwa [hrest]
        exact (get?_eq_none hnew).trans (get?_eq_none hnew').symm
      · have hsame := hget other
        rwa [get?_cons, get?_cons, if_neg hother, if_neg hother] at hsame
    rw [hvalue, hrests]

/-- A manifest is the fold of a log: its import paths are those of the log in order of first
    appearance, each bound as in its last entry. -/
structure Folds (log : List (String × String)) (m : Manifest) : Prop where
  names : m.names = (log.map Prod.fst).eraseDups
  last : ∀ name, m.get? name = log.reverse.lookup name

theorem folds_iff {log : List (String × String)} {m : Manifest} :
    Folds log m ↔ m = empty.update log := by
  have hnames : (empty.update log).names = (log.map Prod.fst).eraseDups :=
    names_update nodup_names_empty log
  have hlast : ∀ name, (empty.update log).get? name = log.reverse.lookup name := by
    intro name
    rw [get?_update, show empty.get? name = none from rfl, Option.or_none]
  constructor
  · intro h
    refine (eq_of_get? (nodup_names_update nodup_names_empty log) ?_ fun name => ?_).symm
    · rw [hnames, h.names]
    · rw [hlast, h.last]
  · rintro rfl
    exact ⟨hnames, hlast⟩

/-- Of a manifest each import path has one entry, so its first binding is its last. -/
theorem lookup_reverse_entries {m : Manifest} (hm : m.names.Nodup) (name : String) :
    m.entries.reverse.lookup name = m.get? name := by
  obtain ⟨entries⟩ := m
  induction entries with
  | nil => rfl
  | cons entry entries ih =>
    obtain ⟨source, stored⟩ := entry
    obtain ⟨hnew, hnodup⟩ := List.nodup_cons.1 hm
    rw [List.reverse_cons, List.lookup_append, ih hnodup, get?_cons, List.lookup_singleton]
    by_cases hname : name = source
    · subst hname
      rw [get?_eq_none hnew]
      simp
    · simp [hname]

/-- Binding an import path in a manifest binds it in whatever is updated by that. -/
theorem update_insert {m n : Manifest} (hm : m.names.Nodup) (hn : n.names.Nodup)
    (source stored : String) :
    m.update (n.insert source stored).entries = (m.update n.entries).insert source stored := by
  have hinserted : (n.insert source stored).names.Nodup := by
    rw [names, insert, bind_eq_put]
    exact Dictionary.nodup_keys_put hn source stored
  have hnames {k : Manifest} : k.entries.map Prod.fst = k.names := rfl
  refine eq_of_get? (nodup_names_update hm _) ?_ fun name => ?_
  · rw [names_insert, names_update hm, names_update hm, hnames, hnames, names_insert]
    by_cases hsource : source ∈ n.names
    · rw [if_pos hsource, if_pos]
      exact List.mem_eraseDups.2 (List.mem_append_right _ hsource)
    · rw [if_neg hsource, ← List.append_assoc, eraseDups_concat]
      simp only [List.mem_eraseDups]
  · rw [get?_insert, get?_update, get?_update, lookup_reverse_entries hinserted,
      lookup_reverse_entries hn, get?_insert]
    split <;> rfl

/-- What is folded already updates a manifest like the log that it is folded from. -/
theorem update_update {m : Manifest} (hm : m.names.Nodup) (log : List (String × String)) :
    m.update (empty.update log).entries = m.update log := by
  induction log using List.reverseRecOn with
  | nil => rfl
  | append_singleton log entry ih =>
    have hfolded : (empty.update log).names.Nodup := nodup_names_update nodup_names_empty log
    rw [update_concat, update_insert hm hfolded, ih, update_concat]

/-- A manifest that is updated by its own bindings stays as it is. -/
theorem update_self {m : Manifest} (hm : m.names.Nodup) : m.update m.entries = m := by
  refine eq_of_get? (nodup_names_update hm _) ?_ fun name => ?_
  · have hentries : m.entries.map Prod.fst = m.names := rfl
    have hnone : m.names.removeAll m.names = [] := by simp [List.removeAll]
    rw [names_update hm, hentries, List.eraseDups_append, hnone, eraseDups_of_nodup hm,
      List.eraseDups_nil, List.append_nil]
  · rw [get?_update, lookup_reverse_entries hm, Option.or_self]

/-! ## Reading a log -/

theorem readLines_eq_ok_iff {m m' : Manifest} {number : Nat} {lines : List (List Char)} :
    readLines m number lines = .ok m' ↔ ∃ log, Logs lines log ∧ m' = m.update log := by
  induction lines generalizing m number with
  | nil =>
    rw [readLines]
    constructor
    · rintro ⟨⟩
      exact ⟨[], .nil, rfl⟩
    · rintro ⟨log, ⟨⟩, rfl⟩
      rfl
  | cons raw lines ih =>
    rw [readLines]
    by_cases hblank : (Text.trim raw).isEmpty = true
    · have hnone := Text.trim_isEmpty_iff.1 hblank
      rw [if_pos hblank, ih]
      constructor
      · rintro ⟨log, hlog, rfl⟩
        exact ⟨log, .blank hnone hlog, rfl⟩
      · rintro ⟨log, hlog, rfl⟩
        cases hlog with
        | blank _ hlog => exact ⟨log, hlog, rfl⟩
        | binding hholds _ => exact absurd hholds.visible hnone
    · have hvisible := not_not.1 (mt Text.trim_isEmpty_iff.2 hblank)
      rw [if_neg hblank]
      cases hcolumns : columns? (Text.trim raw) with
      | none =>
        refine iff_of_false (fun h => by cases h) ?_
        rintro ⟨log, hlog, rfl⟩
        cases hlog with
        | blank hnone _ => exact hnone hvisible
        | binding hholds _ =>
          rw [columns?_trim_eq_some_iff.2 hholds] at hcolumns
          cases hcolumns
      | some entry =>
        have hholds := columns?_trim_eq_some_iff.1 hcolumns
        show readLines (m.insert entry.1 entry.2) (number + 1) lines = .ok m' ↔ _
        rw [ih]
        constructor
        · rintro ⟨log, hlog, rfl⟩
          exact ⟨entry :: log, .binding hholds hlog, rfl⟩
        · rintro ⟨log, hlog, rfl⟩
          cases hlog with
          | blank hnone _ => exact absurd hvisible hnone
          | @binding _ _ entry' log hholds' hlog =>
            have hsame := (columns?_trim_eq_some_iff.2 hholds').symm.trans hcolumns
            cases hsame
            exact ⟨log, hlog, rfl⟩

/-- A line that is not in order is refused once those before it are read. -/
theorem readLines_of_not_inOrder (m : Manifest) (number : Nat) {before : List (List Char)}
    {raw : List Char} (after : List (List Char)) (hbefore : ∀ line ∈ before, InOrder line)
    (hraw : ¬ InOrder raw) : readLines m number (before ++ raw :: after) =
      .error (.malformed (number + before.length) (String.ofList (Text.trim raw))) := by
  obtain ⟨log, hlog⟩ := exists_logs_iff.2 hbefore
  have hread : readLines m number before = .ok (m.update log) :=
    readLines_eq_ok_iff.2 ⟨log, hlog, rfl⟩
  have hvisible : ¬ (Text.trim raw).isEmpty = true := fun hblank =>
    hraw (.inl (Text.trim_isEmpty_iff.1 hblank))
  have hcolumns : columns? (Text.trim raw) = none := by
    rw [Option.eq_none_iff_forall_ne_some]
    intro entry hentry
    exact hraw (.inr ⟨entry, columns?_trim_eq_some_iff.1 hentry⟩)
  rw [readLines_append hread, readLines, if_neg hvisible, hcolumns]

/-- Where lines are refused one of them is the first that is not in order. -/
theorem exists_first_not_inOrder {lines : List (List Char)} (h : ¬ ∀ line ∈ lines, InOrder line) :
    ∃ before raw after, lines = before ++ raw :: after ∧ (∀ line ∈ before, InOrder line) ∧
      ¬ InOrder raw := by
  induction lines with
  | nil => exact absurd (fun line hline => absurd hline List.not_mem_nil) h
  | cons line lines ih =>
    by_cases hline : InOrder line
    · obtain ⟨before, raw, after, rfl, hbefore, hraw⟩ :=
        ih fun hall => h (List.forall_mem_cons.2 ⟨hline, hall⟩)
      exact ⟨line :: before, raw, after, rfl, List.forall_mem_cons.2 ⟨hline, hbefore⟩, hraw⟩
    · exact ⟨[], line, lines, rfl, fun _ hmem => absurd hmem List.not_mem_nil, hline⟩

/-- What is refused is the first line that is not in order. -/
theorem readLines_eq_error_iff {m : Manifest} {number : Nat} {lines : List (List Char)}
    {e : Error} : readLines m number lines = .error e ↔
      ∃ before raw after, lines = before ++ raw :: after ∧ (∀ line ∈ before, InOrder line) ∧
        ¬ InOrder raw ∧
        e = .malformed (number + before.length) (String.ofList (Text.trim raw)) := by
  constructor
  · intro h
    have hnot : ¬ ∀ line ∈ lines, InOrder line := by
      intro hall
      obtain ⟨log, hlog⟩ := exists_logs_iff.2 hall
      have hread : readLines m number lines = .ok (m.update log) :=
        readLines_eq_ok_iff.2 ⟨log, hlog, rfl⟩
      rw [hread] at h
      cases h
    obtain ⟨before, raw, after, rfl, hbefore, hraw⟩ := exists_first_not_inOrder hnot
    rw [readLines_of_not_inOrder m number after hbefore hraw] at h
    cases h
    exact ⟨before, raw, after, rfl, hbefore, hraw, rfl⟩
  · rintro ⟨before, raw, after, rfl, hbefore, hraw, rfl⟩
    exact readLines_of_not_inOrder m number after hbefore hraw

theorem parse_eq_ok_iff {text : String} {m : Manifest} :
    parse text = .ok m ↔ ∃ log, Logs (Text.linesOf text) log ∧ m = empty.update log :=
  readLines_eq_ok_iff

theorem names_nodup_of_parse {text : String} {m : Manifest} (h : parse text = .ok m) :
    m.names.Nodup :=
  (legible_of_parse h).1

/-! ## Logs one after the other -/

/-- The same error so many lines further down. -/
def Error.later (lines : Nat) : Error → Error
  | .malformed line content => .malformed (line + lines) content
  | .encoding => .encoding
  | .host cause => .host cause

theorem linesOf_append {text : String} (hended : Text.Ended text.toList) (more : String) :
    Text.linesOf (text ++ more) = Text.linesOf text ++ Text.linesOf more := by
  rw [Text.linesOf, String.toList_append, Text.lines_append hended]
  rfl

/-- Of two texts, the first of which has its last line ended, the second is read on from where the
    first one ends. -/
theorem parse_append {text : String} (hended : Text.Ended text.toList) (more : String) :
    parse (text ++ more) = do
      let m ← parse text
      let n ← (parse more).mapError (·.later (Text.linesOf text).length)
      return m.update n.entries := by
  have hlines := linesOf_append hended more
  cases htext : parse text with
  | error e =>
    obtain ⟨before, raw, after, hsplit, hbefore, hraw, rfl⟩ := readLines_eq_error_iff.1 htext
    refine readLines_eq_error_iff.2
      ⟨before, raw, after ++ Text.linesOf more, ?_, hbefore, hraw, rfl⟩
    rw [hlines, hsplit, List.append_assoc, List.cons_append]
  | ok m =>
    cases hmore : parse more with
    | error e =>
      obtain ⟨log, hlog, rfl⟩ := parse_eq_ok_iff.1 htext
      obtain ⟨before, raw, after, hsplit, hbefore, hraw, rfl⟩ := readLines_eq_error_iff.1 hmore
      refine readLines_eq_error_iff.2
        ⟨Text.linesOf text ++ before, raw, after, ?_, ?_, hraw, ?_⟩
      · rw [hlines, hsplit, List.append_assoc]
      · intro line hline
        rcases List.mem_append.1 hline with hline | hline
        · exact exists_logs_iff.1 ⟨log, hlog⟩ line hline
        · exact hbefore line hline
      · rw [List.length_append]
        show Error.malformed (1 + before.length + (Text.linesOf text).length) _ = _
        congr 1
        omega
    | ok n =>
      have hm := names_nodup_of_parse htext
      obtain ⟨log, hlog, rfl⟩ := parse_eq_ok_iff.1 htext
      obtain ⟨log', hlog', rfl⟩ := parse_eq_ok_iff.1 hmore
      refine parse_eq_ok_iff.2 ⟨log ++ log', hlines ▸ hlog.append hlog', ?_⟩
      rw [update_append]
      exact update_update hm log'

/-- A text whose last line is ended is read twice as once. -/
theorem parse_append_self {text : String} (hended : Text.Ended text.toList) :
    parse (text ++ text) = parse text := by
  rw [parse_append hended]
  cases htext : parse text with
  | error e => rfl
  | ok m =>
    show Except.ok (m.update m.entries) = .ok m
    rw [update_self (names_nodup_of_parse htext)]

/-- What can be bound on a line: an import path without blanks to a stored path that is tidy. -/
theorem bindable_iff {importPath storedPath : String} :
    Bindable importPath storedPath ↔ importPath ≠ "" ∧
      importPath.toList.all (!Text.isBlank ·) = true ∧ Text.Tidy storedPath.toList := by
  have hall : importPath.toList.all (!Text.isBlank ·) = true ↔
      ∀ c ∈ importPath.toList, Text.isBlank c = false := by simp
  rw [hall]
  constructor
  · intro h
    obtain ⟨c, hlast, hc⟩ := h.finish
    refine ⟨h.named, h.solid, ?_, h.oneLine, h.start, fun c' hlast' => ?_⟩
    · rintro hnil
      rw [hnil] at hlast
      cases hlast
    · cases hlast.symm.trans hlast'
      exact hc
  · rintro ⟨hnamed, hsolid, h⟩
    obtain ⟨c, hlast⟩ := Option.ne_none_iff_exists'.1 (mt List.getLast?_eq_none_iff.1 h.ne_nil)
    exact ⟨hnamed, hsolid, h.head, ⟨c, hlast, h.last c hlast⟩, h.oneLine⟩

instance (importPath storedPath : String) : Decidable (Bindable importPath storedPath) :=
  decidable_of_iff _ bindable_iff.symm

/-- The lines of records are read as the records, one after the other. -/
theorem parse_records {records : List PackageRecord}
    (h : ∀ r ∈ records, Bindable r.importPath r.storedPath) :
    Text.Ended (String.join (records.map fun r => r.line ++ "\n")).toList ∧
      parse (String.join (records.map fun r => r.line ++ "\n")) =
        .ok (empty.update (records.map fun r => (r.importPath, r.storedPath))) := by
  induction records using List.reverseRecOn with
  | nil => exact ⟨.inl rfl, rfl⟩
  | append_singleton records r ih =>
    obtain ⟨hended, hread⟩ := ih fun r' hr' => h r' (List.mem_append_left _ hr')
    have hline : Bindable r.importPath r.storedPath := h r (by simp)
    have htext : String.join ((records ++ [r]).map fun r => r.line ++ "\n") =
        String.join (records.map fun r => r.line ++ "\n") ++
          (line r.importPath r.storedPath ++ "\n") := by
      rw [List.map_append, String.join_append]
      simp [PackageRecord.line]
    rw [htext, List.map_append, List.map_singleton, update_concat]
    refine ⟨?_, hline.parse_append hended hread⟩
    rw [String.toList_append, String.toList_append]
    exact Text.ended_append _ _

/-- A manifest is the fold of its log. Reading a text gives the manifest that the bindings of its
    lines fold to, if all its lines are in order, and else an error with the number and the content
    of the first one that is not. So a text is read on from the end of another one whose last line
    is ended, to be read twice changes nothing, and the lines of records are read as the records. -/
theorem parse_folds (text : String) :
    (∀ m, parse text = .ok m ↔ ∃ log, Logs (Text.linesOf text) log ∧ Folds log m) ∧
    ((∃ m, parse text = .ok m) ↔ ∀ raw ∈ Text.linesOf text, InOrder raw) ∧
    (∀ e, parse text = .error e ↔ ∃ before raw after,
      Text.linesOf text = before ++ raw :: after ∧ (∀ line ∈ before, InOrder line) ∧
      ¬ InOrder raw ∧ e = .malformed (before.length + 1) (String.ofList (Text.trim raw))) ∧
    (Text.Ended text.toList →
      (∀ more, parse (text ++ more) = do
        let m ← parse text
        let n ← (parse more).mapError (·.later (Text.linesOf text).length)
        return m.update n.entries) ∧
      parse (text ++ text) = parse text) ∧
    ∀ records : List PackageRecord, (∀ r ∈ records, Bindable r.importPath r.storedPath) →
      parse (String.join (records.map fun r => r.line ++ "\n")) =
        .ok (empty.update (records.map fun r => (r.importPath, r.storedPath))) := by
  refine ⟨fun m => ?_, ?_, fun e => ?_, fun hended => ?_, fun records h => (parse_records h).2⟩
  · simp only [folds_iff, parse_eq_ok_iff]
  · rw [← exists_logs_iff]
    constructor
    · rintro ⟨m, h⟩
      obtain ⟨log, hlog, -⟩ := parse_eq_ok_iff.1 h
      exact ⟨log, hlog⟩
    · rintro ⟨log, hlog⟩
      exact ⟨_, parse_eq_ok_iff.2 ⟨log, hlog, rfl⟩⟩
  · simp only [parse, readLines_eq_error_iff, Nat.add_comm 1]
  · exact ⟨parse_append hended, parse_append_self hended⟩

/-- A log with a carriage return and a line that says nothing, one more with a line that is not in
    order, and records of which two bind one import path. -/
theorem parse_folds_torn :
    let text := "a -> b\r\n\n"
    let records : List PackageRecord :=
      [⟨"x", "/old", []⟩, ⟨"net/http", "->", []⟩, ⟨"x", "y z", []⟩]
    (parse text = .ok ⟨[("a", "b")]⟩ ∧ Text.Ended text.toList ∧
      parse (text ++ "c -> d\n -> e") = .error (.malformed 4 "-> e") ∧
      parse (text ++ text) = parse text) ∧
    (∀ r ∈ records, Bindable r.importPath r.storedPath) ∧
      parse (String.join (records.map fun r => r.line ++ "\n")) =
        .ok ⟨[("x", "y z"), ("net/http", "->")]⟩ := by
  intro text records
  obtain ⟨-, -, -, htext, hrecords⟩ := parse_folds text
  have hended : Text.Ended text.toList := .inr (by decide)
  have hbindable : ∀ r ∈ records, Bindable r.importPath r.storedPath := by decide
  obtain ⟨hmore, htwice⟩ := htext hended
  refine ⟨⟨by decide +kernel, hended, ?_, htwice⟩, hbindable, ?_⟩
  · rw [hmore]
    decide +kernel
  · rw [hrecords records hbindable]
    decide +kernel

end Manifest

end Workbench
