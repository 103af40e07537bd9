import Workbench.Manifest.File
import Workbench.Proofs.Installing
import Workbench.Proofs.ManifestLog

set_option autoImplicit false

/-! # Appending to a manifest in a file

A record is appended to a file by its line and nothing before it. So a file whose last line is begun
but not ended is damaged: the record becomes a part of the stored path that this line binds, and its
own import path stays unbound. Any other file, one that is not there among them, is read afterwards
as it was before with the record bound, and then it is one to which any number of records can be
appended. That a record can be appended depends on the directories on the way alone. -/

namespace Workbench

namespace Text

/-! ## The last line of a text -/

/-- The last line of a text is begun, with something that can be seen, but not ended. -/
def Hanging (s : List Char) : Prop :=
  ∃ front last, s = front ++ last ∧ Ended front ∧ '\n' ∉ last ∧ Visible last

/-- A text is cut behind its last line end. -/
theorem exists_last_line (s : List Char) :
    ∃ front last, s = front ++ last ∧ Ended front ∧ '\n' ∉ last := by
  induction s using List.reverseRecOn with
  | nil => exact ⟨[], [], rfl, .inl rfl, List.not_mem_nil⟩
  | append_singleton s c ih =>
    by_cases hc : c = '\n'
    · subst hc
      refine ⟨s ++ ['\n'], [], by simp, .inr List.getLast?_concat, List.not_mem_nil⟩
    · obtain ⟨front, last, rfl, hfront, hlast⟩ := ih
      refine ⟨front, last ++ [c], by simp, hfront, ?_⟩
      simp [hlast, Ne.symm hc]

theorem not_hanging_of_ended {s : List Char} (h : Ended s) : ¬ Hanging s := by
  rintro ⟨front, last, rfl, -, hlast, c, hc, -⟩
  have hne : last ≠ [] := List.ne_nil_of_mem hc
  rcases h with hnil | hend
  · exact hne (List.append_eq_nil_iff.1 hnil).2
  · rw [List.getLast?_append_of_ne_nil _ hne] at hend
    exact hlast (List.mem_of_getLast? hend)

/-- A line that is not ended is a line all the same. -/
theorem lines_of_oneLine {s : List Char} (hs : '\n' ∉ s) (hne : s ≠ []) : lines s = [s] := by
  rw [lines, splitOn_of_notMem hs]
  simp [hne]

/-! ## Texts that are made longer -/

theorem trimStart_eq_append (s : List Char) :
    ∃ gap, (∀ c ∈ gap, isBlank c = true) ∧ trimStart s = trim s ++ gap := by
  refine ⟨((trimStart s).reverse.takeWhile isBlank).reverse, fun c hc => ?_, ?_⟩
  · exact List.mem_takeWhile_imp (List.mem_reverse.1 hc)
  · rw [trim, trimEnd, dropEndWhile, ← List.reverse_append, List.takeWhile_append_dropWhile,
      List.reverse_reverse]

/-- What is seen at the end of a text keeps the blanks before it. -/
theorem trim_append {s t : List Char} (hs : Visible s)
    (ht : ∃ c, t.getLast? = some c ∧ isBlank c = false) :
    ∃ gap, (∀ c ∈ gap, isBlank c = true) ∧ trim (s ++ t) = trim s ++ (gap ++ t) := by
  obtain ⟨gap, hgap, hstart⟩ := trimStart_eq_append s
  obtain ⟨c, hlast, hc⟩ := ht
  have hne : trimStart s ≠ [] := by
    intro hnil
    rw [hnil] at hstart
    exact trim_eq_nil_iff.1 (List.append_eq_nil_iff.1 hstart.symm).1 hs
  have hwhole : trimStart (s ++ t) = trimStart s ++ t := by
    rw [trimStart, List.dropWhile_append, ← trimStart, if_neg (by simpa using hne)]
  obtain ⟨front, rfl⟩ := List.getLast?_eq_some_iff.1 hlast
  have hshape : trim s ++ gap ++ (front ++ [c]) = (trim s ++ (gap ++ front)) ++ c :: [] := by simp
  refine ⟨gap, hgap, ?_⟩
  rw [trim, hwhole, hstart, hshape, trimEnd_append_cons hc, List.append_assoc, List.append_assoc]
  rfl

end Text

namespace Manifest

open Host Host.Disk Host.Job

variable {importPath storedPath text path : String} {m : Manifest} {d d' : Disk}

/-! ## A line behind a text -/

theorem Logs.of_append {lines lines' : List (List Char)} {log : List (String × String)}
    (h : Logs (lines ++ lines') log) :
    ∃ log₁ log₂, log = log₁ ++ log₂ ∧ Logs lines log₁ ∧ Logs lines' log₂ := by
  induction lines generalizing log with
  | nil => exact ⟨[], log, rfl, .nil, h⟩
  | cons raw lines ih =>
    rw [List.cons_append] at h
    cases h with
    | blank hnone h =>
      obtain ⟨log₁, log₂, rfl, h₁, h₂⟩ := ih h
      exact ⟨log₁, log₂, rfl, .blank hnone h₁, h₂⟩
    | @binding _ _ entry _ hholds h =>
      obtain ⟨log₁, log₂, rfl, h₁, h₂⟩ := ih h
      exact ⟨entry :: log₁, log₂, rfl, .binding hholds h₁, h₂⟩

/-- A line that holds a binding still does when it is made longer, and binds the same import path to
    a longer stored path. -/
theorem Holds.append {raw more : List Char} {entry : String × String} (h : Holds raw entry)
    (hmore : ∃ c, more.getLast? = some c ∧ Text.isBlank c = false) :
    ∃ gap, (∀ c ∈ gap, Text.isBlank c = true) ∧
      Holds (raw ++ more) (entry.1, entry.2 ++ (String.ofList gap ++ String.ofList more)) := by
  have hvisible := h.visible
  obtain ⟨before, after, hline, hfirst, hbefore, hafter, rfl⟩ := h
  obtain ⟨gap, hgap, hwhole⟩ := Text.trim_append hvisible hmore
  have hend : ∃ c, (gap ++ more).getLast? = some c ∧ Text.isBlank c = false := by
    obtain ⟨c, hlast, hc⟩ := hmore
    exact ⟨c, by rw [List.getLast?_append, hlast]; rfl, hc⟩
  obtain ⟨gap', hgap', hstored⟩ := Text.trim_append hafter hend
  refine ⟨gap' ++ gap, fun c hc => (List.mem_append.1 hc).elim (hgap' c) (hgap c), before,
    after ++ (gap ++ more), ?_, fun front rest hfront => ?_, hbefore, ?_, ?_⟩
  · rw [hwhole, hline]
    simp only [List.append_assoc]
  · -- an arrow that stood further in front would stand there already
    by_contra hshort
    have hlength : (front ++ arrow.toList).length ≤ (Text.trim raw).length := by
      rw [hline]
      simp only [List.length_append]
      omega
    have hthere : front ++ arrow.toList <+: Text.trim raw ++ (gap ++ more) := by
      rw [← hwhole, hfront, ← List.append_assoc]
      exact List.prefix_append _ _
    obtain ⟨rest', hrest'⟩ := List.prefix_of_prefix_length_le hthere (List.prefix_append _ _) hlength
    exact hshort (hfirst front rest' (by rw [← hrest', List.append_assoc]))
  · obtain ⟨c, hc, hsolid⟩ := hafter
    exact ⟨c, List.mem_append_left _ hc, hsolid⟩
  · rw [hstored]
    simp [String.ofList_append, String.append_assoc]

theorem Bindable.holds (h : Bindable importPath storedPath) {blanks : List Char}
    (hblanks : ¬ Text.Visible blanks) :
    Holds (blanks ++ (line importPath storedPath).toList) (importPath, storedPath) := by
  refine columns?_trim_eq_some_iff.1 ?_
  rw [Text.trim_blank_append (Text.not_visible_iff.1 hblanks), h.trim_line, h.columns?_line]

/-- The lines of a text with a line behind it that is ended. -/
theorem linesOf_append_line (h : Bindable importPath storedPath) {front last : List Char}
    (htext : text.toList = front ++ last) (hfront : Text.Ended front) (hlast : '\n' ∉ last) :
    Text.linesOf (text ++ (line importPath storedPath ++ "\n")) =
      Text.lines front ++ [last ++ (line importPath storedPath).toList] := by
  obtain ⟨c, hend, hc⟩ := h.getLast?_line
  have hreturn : (last ++ (line importPath storedPath).toList).getLast? ≠ some '\r' := by
    rw [List.getLast?_append, hend]
    rintro ⟨⟩
    exact absurd hc (by decide)
  have hone : '\n' ∉ last ++ (line importPath storedPath).toList :=
    List.not_mem_append hlast h.oneLine_line
  have hchars : (text ++ (line importPath storedPath ++ "\n")).toList =
      front ++ (last ++ (line importPath storedPath).toList ++ ['\n']) := by
    rw [String.toList_append, String.toList_append, htext, List.append_assoc, List.append_assoc]
    rfl
  rw [Text.linesOf, hchars, Text.lines_append_line hfront hone hreturn]

theorem bind_bind (name value value' : String) (entries : List (String × String)) :
    bind name value' (bind name value entries) = bind name value' entries := by
  induction entries with
  | nil => simp [bind]
  | cons entry entries ih =>
    obtain ⟨n, v⟩ := entry
    by_cases hn : n = name
    · rw [bind, if_pos hn, bind, if_pos hn, bind, if_pos hn]
    · rw [bind, if_neg hn, bind, if_neg hn, bind, if_neg hn, ih]

/-- Behind a text whose last line does not hang a line binds its import path. -/
theorem parse_append_of_not_hanging (h : Bindable importPath storedPath)
    (hm : parse text = .ok m) (hfree : ¬ Text.Hanging text.toList) :
    parse (text ++ (line importPath storedPath ++ "\n")) =
      .ok (m.insert importPath storedPath) := by
  obtain ⟨log, hlog, rfl⟩ := parse_eq_ok_iff.1 hm
  obtain ⟨front, last, htext, hfront, hlast⟩ := Text.exists_last_line text.toList
  have hblank : ¬ Text.Visible last := fun hvisible =>
    hfree ⟨front, last, htext, hfront, hlast, hvisible⟩
  rw [Text.linesOf, htext, Text.lines_append hfront] at hlog
  obtain ⟨log₁, log₂, rfl, h₁, h₂⟩ := hlog.of_append
  -- behind the last line end the log says nothing
  obtain rfl : log₂ = [] := by
    by_cases hnil : last = []
    · rw [hnil] at h₂
      cases h₂
      rfl
    · rw [Text.lines_of_oneLine hlast hnil] at h₂
      cases h₂ with
      | blank _ h₂ =>
        cases h₂
        rfl
      | binding hholds _ => exact absurd hholds.visible hblank
  refine parse_eq_ok_iff.2 ⟨log₁ ++ [(importPath, storedPath)], ?_, ?_⟩
  · rw [linesOf_append_line h htext hfront hlast]
    exact h₁.append (.binding (h.holds hblank) .nil)
  · rw [List.append_nil, update_concat]

/-- A line behind a text whose last line hangs becomes a part of what this line binds. -/
theorem parse_append_of_hanging (h : Bindable importPath storedPath) (hm : parse text = .ok m)
    (hhang : Text.Hanging text.toList) :
    ∃ source stored gap, m.get? source = some stored ∧ (∀ c ∈ gap, Text.isBlank c = true) ∧
      parse (text ++ (line importPath storedPath ++ "\n")) =
        .ok (m.insert source
          (stored ++ (String.ofList gap ++ line importPath storedPath))) := by
  obtain ⟨log, hlog, rfl⟩ := parse_eq_ok_iff.1 hm
  obtain ⟨front, last, htext, hfront, hlast, hvisible⟩ := hhang
  have hne : last ≠ [] := by
    rintro rfl
    obtain ⟨c, hc, -⟩ := hvisible
    exact absurd hc List.not_mem_nil
  rw [Text.linesOf, htext, Text.lines_append hfront, Text.lines_of_oneLine hlast hne] at hlog
  obtain ⟨log₁, log₂, rfl, h₁, h₂⟩ := hlog.of_append
  cases h₂ with
  | blank hnone _ => exact absurd hvisible hnone
  | @binding _ _ entry log₂ hholds h₂ =>
    cases h₂
    obtain ⟨source, stored⟩ := entry
    obtain ⟨c, hend, hc⟩ := h.getLast?_line
    obtain ⟨gap, hgap, hlonger⟩ := hholds.append ⟨c, hend, hc⟩
    rw [String.ofList_toList] at hlonger
    refine ⟨source, stored, gap, ?_, hgap, ?_⟩
    · rw [update_concat, get?_insert, if_pos rfl]
    · refine parse_eq_ok_iff.2 ⟨log₁ ++
        [(source, stored ++ (String.ofList gap ++ line importPath storedPath))], ?_, ?_⟩
      · rw [linesOf_append_line h htext hfront hlast]
        exact h₁.append (.binding hlonger .nil)
      · rw [update_concat, update_concat, insert, insert, insert, bind_bind]

/-- A line that is appended to a text binds its import path if and only if the last line of the text
    does not hang. -/
theorem parse_append_iff (h : Bindable importPath storedPath) (hm : parse text = .ok m) :
    parse (text ++ (line importPath storedPath ++ "\n")) = .ok (m.insert importPath storedPath) ↔
      ¬ Text.Hanging text.toList := by
  refine ⟨fun hread hhang => ?_, parse_append_of_not_hanging h hm⟩
  obtain ⟨source, stored, gap, hbound, -, hdamaged⟩ := parse_append_of_hanging h hm hhang
  rw [hdamaged, Except.ok.injEq] at hread
  have hget : _ = _ := congrArg (·.get? source) hread
  rw [get?_insert, if_pos rfl, get?_insert, hbound] at hget
  -- what is bound now is longer than the line, so it is neither bound by it nor as before
  have hlength : (line importPath storedPath).length =
      importPath.length + (arrow.length + storedPath.length) := by
    rw [line, String.length_append, String.length_append, Nat.add_assoc]
  have harrow : arrow.length = 4 := rfl
  split at hget
  · have hsame := congrArg String.length (Option.some.inj hget)
    rw [String.length_append, String.length_append] at hsame
    omega
  · have hsame := congrArg String.length (Option.some.inj hget)
    rw [String.length_append, String.length_append] at hsame
    omega

/-! ## The file -/

/-- The file that a path leads to is found at it. -/
def Seen (d : Disk) (path : String) : Prop :=
  ∀ data, d.shapeAt (d.placeOf path) = some (.file data) → d.read path = .ok data

/-- The last line of the file at a path is begun but not ended. -/
def Torn (d : Disk) (path : String) : Prop :=
  ∃ text : String, d.read path = .ok text.toUTF8 ∧ Text.Hanging text.toList

/-- A record can be appended to the file at a path: the file and the lock beside it can be put in
    place. -/
def Appendable (d : Disk) (path : String) : Prop :=
  ∃ parent, Ready d parent path ∧ Ready d parent (path ++ ".lock")

theorem ofBytes_toUTF8 (text : String) : ofBytes text.toUTF8 = parse text := by
  rw [ofBytes, Text.ofUtf8?_eq_some_iff.2 rfl]

/-- The manifest in a file is read from a text, which is empty where no file is. -/
theorem exists_text_of_load (hseen : Seen d path) (hload : load d path = .ok m) :
    ∃ text : String, d.contentAt (d.placeOf path) = text.toUTF8 ∧ parse text = .ok m ∧
      (Torn d path ↔ Text.Hanging text.toList) := by
  rw [load] at hload
  cases hread : d.read path with
  | ok bytes =>
    rw [hread] at hload
    dsimp only at hload
    rw [ofBytes] at hload
    split at hload
    · next text htext =>
      obtain rfl := Text.ofUtf8?_eq_some_iff.1 htext
      refine ⟨text, contentAt_of_read hread, hload, ?_, fun hhang => ⟨text, hread, hhang⟩⟩
      rintro ⟨text', htext', hhang⟩
      have hbytes := Text.ofUtf8?_eq_some_iff.2 (Except.ok.inj (hread.symm.trans htext'))
      cases htext.symm.trans hbytes
      exact hhang
    · cases hload
  | error e =>
    rw [hread] at hload
    dsimp only at hload
    split at hload
    · cases hload
      refine ⟨"", ?_, rfl, ?_, fun hhang => absurd hhang (Text.not_hanging_of_ended (.inl rfl))⟩
      · unfold contentAt
        split
        · next data hfile =>
          have hthere := hseen data hfile
          rw [hread] at hthere
          cases hthere
        · rfl
      · rintro ⟨text, htext, -⟩
        rw [hread] at htext
        cases htext
    · cases hload

/-- What is read from a file once a line is appended to it. -/
theorem load_append_eq (hd : d.Grounded) {r : PackageRecord}
    (htext : d.contentAt (d.placeOf path) = text.toUTF8) (h : Yields (append path r) d () d') :
    d'.Grounded ∧ Seen d' path ∧ d'.read path = .ok (text ++ (r.line ++ "\n")).toUTF8 ∧
      load d' path = parse (text ++ (r.line ++ "\n")) := by
  obtain ⟨hgrown, hread⟩ := appendLine_grown hd h
  have hbytes : text.toUTF8 ++ (r.line ++ "\n").toUTF8 = (text ++ (r.line ++ "\n")).toUTF8 :=
    String.toByteArray_append.symm
  rw [htext, hbytes] at hread
  refine ⟨hgrown.grounded hd, fun data hfile => ?_, hread, ?_⟩
  · cases hfile.symm.trans (shapeAt_of_read hread)
    exact hread
  · rw [load, hread]
    exact ofBytes_toUTF8 _

theorem load_append_iff (hd : d.Grounded) (hseen : Seen d path) (hload : load d path = .ok m)
    {r : PackageRecord} (hr : Bindable r.importPath r.storedPath)
    (h : Yields (append path r) d () d') :
    load d' path = .ok (m.insert r.importPath r.storedPath) ↔ ¬ Torn d path := by
  obtain ⟨text, htext, hm, htorn⟩ := exists_text_of_load hseen hload
  rw [(load_append_eq hd htext h).2.2.2, htorn]
  exact parse_append_iff hr hm

/-- A file to which a record was appended has its last line ended. -/
theorem not_torn_append (hd : d.Grounded) (hseen : Seen d path) (hload : load d path = .ok m)
    {r : PackageRecord} (h : Yields (append path r) d () d') :
    d'.Grounded ∧ Seen d' path ∧ ¬ Torn d' path := by
  obtain ⟨text, htext, -, -⟩ := exists_text_of_load hseen hload
  obtain ⟨hgrounded, hseen', hread, -⟩ := load_append_eq hd htext h
  refine ⟨hgrounded, hseen', ?_⟩
  rintro ⟨text', htext', hhang⟩
  have hsame := Text.ofUtf8?_eq_some_iff.2 (Except.ok.inj (hread.symm.trans htext'))
  rw [Text.ofUtf8?_eq_some_iff.2 rfl, Option.some.injEq] at hsame
  rw [← hsame, String.toList_append, String.toList_append] at hhang
  exact Text.not_hanging_of_ended (Text.ended_append _ _) hhang

/-- Records that are appended one after the other are folded into what was read before. -/
theorem load_appends (hd : d.Grounded) (hseen : Seen d path) (hload : load d path = .ok m)
    (hwhole : ¬ Torn d path) {records : List PackageRecord}
    (hrecords : ∀ r ∈ records, Bindable r.importPath r.storedPath)
    (h : Yields (forM records (append path)) d () d') :
    load d' path = .ok (m.update (records.map fun r => (r.importPath, r.storedPath))) := by
  induction records generalizing d m with
  | nil =>
    rw [List.forM_nil] at h
    obtain ⟨-, rfl⟩ := yields_pure_iff.1 h
    exact hload
  | cons r records ih =>
    rw [List.forM_cons] at h
    obtain ⟨⟨⟩, d₁, hfirst, hrest⟩ := yields_bind_iff.1 h
    have hr : Bindable r.importPath r.storedPath := hrecords r List.mem_cons_self
    obtain ⟨hd₁, hseen₁, hwhole₁⟩ := not_torn_append hd hseen hload hfirst
    have hload₁ := (load_append_iff hd hseen hload hr hfirst).2 hwhole
    have hothers : ∀ r' ∈ records, Bindable r'.importPath r'.storedPath := fun r' hr' =>
      hrecords r' (List.mem_cons_of_mem r hr')
    exact ih hd₁ hseen₁ hload₁ hwhole₁ hothers hrest

/-- A record is appended where it can be, and then others still can be. -/
theorem exists_append (hd : d.Grounded) (h : Appendable d path) (r : PackageRecord) :
    ∃ d', Yields (append path r) d () d' ∧ d'.Grounded ∧ Appendable d' path := by
  obtain ⟨parent, hfile, hlock⟩ := h
  obtain ⟨d₁, hpassed⟩ := amend_ok hd hlock fileMode id
  have hleft := installed_amend hd hlock.below fileMode id
  rw [show resultOf _ d = (.ok (), d₁) from hpassed] at hleft
  have hd₁ := (grows_passLock _ hd hpassed).grounded hd
  have hfile₁ := hfile.installed hlock hleft
  have hlock₁ := hlock.installed hlock hleft
  obtain ⟨d', hwritten⟩ := amend_ok hd₁ hfile₁ fileMode (· ++ (r.line ++ "\n").toUTF8)
  have hleft' := installed_amend hd₁ hfile₁.below fileMode (· ++ (r.line ++ "\n").toUTF8)
  rw [show resultOf _ d₁ = (.ok (), d') from hwritten] at hleft'
  have hyields : Yields (append path r) d () d' := yields_bind_iff.2 ⟨(), d₁, hpassed, hwritten⟩
  exact ⟨d', hyields, (appendLine_grown hd hyields).1.grounded hd, parent,
    hfile₁.installed hfile₁ hleft', hlock₁.installed hfile₁ hleft'⟩

theorem exists_appends (hd : d.Grounded) (h : Appendable d path) (records : List PackageRecord) :
    ∃ d', Yields (forM records (append path)) d () d' := by
  induction records generalizing d with
  | nil => exact ⟨d, yields_pure_iff.2 ⟨rfl, rfl⟩⟩
  | cons r records ih =>
    obtain ⟨d₁, hfirst, hd₁, hstill⟩ := exists_append hd h r
    obtain ⟨d', hrest⟩ := ih hd₁ hstill
    exact ⟨d', yields_bind_iff.2 ⟨(), d₁, hfirst, hrest⟩⟩

/-- What appending to the manifest in a file comes to. A record that is appended is bound in what is
    read afterwards, with nothing else changed, if and only if the last line of the file was not
    begun and left without an end. A file of which this line is not torn, one that is not there among
    them, is read after any number of records as what was read before with these folded in. And they
    all can be appended if the file and its lock can be put in place. -/
theorem load_after_appends (hd : d.Grounded) (hseen : Seen d path) (hload : load d path = .ok m) :
    (∀ r : PackageRecord, Bindable r.importPath r.storedPath →
      ∀ d', Yields (append path r) d () d' →
        (load d' path = .ok (m.insert r.importPath r.storedPath) ↔ ¬ Torn d path)) ∧
    (¬ Torn d path → ∀ records : List PackageRecord,
      (∀ r ∈ records, Bindable r.importPath r.storedPath) →
      ∀ d', Yields (forM records (append path)) d () d' →
        load d' path = .ok (m.update (records.map fun r => (r.importPath, r.storedPath)))) ∧
    (Appendable d path → ∀ records : List PackageRecord,
      ∃ d', Yields (forM records (append path)) d () d') := by
  refine ⟨fun r hr d' h => ?_, fun hwhole records hrecords d' h => ?_, fun happend => ?_⟩
  · exact load_append_iff hd hseen hload hr h
  · exact load_appends hd hseen hload hwhole hrecords h
  · exact exists_appends hd happend

/-! ## Two files -/

/-- A disk with nothing but a file `m` in its working directory. -/
def diskWith (content : String) : Disk := ⟨.dir [("m", .file content.toUTF8 fileMode)] dirMode, []⟩

theorem grounded_diskWith (content : String) : (diskWith content).Grounded := rfl

theorem appendable_diskWith (content : String) : Appendable (diskWith content) "m" :=
  ⟨"", ready_here (grounded_diskWith _) (by decide) (by decide) (by rintro ⟨⟩),
    ready_here (grounded_diskWith _) (by decide) (by decide) (by rintro ⟨⟩)⟩

theorem read_diskWith (content : String) : (diskWith content).read "m" = .ok content.toUTF8 := rfl

theorem seen_diskWith (content : String) : Seen (diskWith content) "m" := by
  rintro data ⟨⟩
  exact read_diskWith content

/-- Behind a line that is ended records are appended, one of which binds anew. -/
theorem load_after_appends_whole :
    let d := diskWith "fmt -> /a\n"
    let records : List PackageRecord := [⟨"os", "/c d", []⟩, ⟨"fmt", "/b", []⟩]
    (d.Grounded ∧ Seen d "m" ∧ load d "m" = .ok ⟨[("fmt", "/a")]⟩ ∧ ¬ Torn d "m" ∧
      Appendable d "m") ∧
    ∃ d', Yields (forM records (append "m")) d () d' ∧
      load d' "m" = .ok ⟨[("fmt", "/b"), ("os", "/c d")]⟩ := by
  intro d records
  have hgrounded : d.Grounded := grounded_diskWith _
  have hseen : Seen d "m" := seen_diskWith _
  have hload : load d "m" = .ok ⟨[("fmt", "/a")]⟩ := by decide +kernel
  have hwhole : ¬ Torn d "m" := by
    rintro ⟨text, hread, hhang⟩
    rw [read_diskWith, Except.ok.injEq, String.toUTF8_eq_toByteArray, String.toUTF8_eq_toByteArray,
      String.toByteArray_inj] at hread
    subst hread
    exact Text.not_hanging_of_ended (.inr (by decide)) hhang
  have hrecords : ∀ r ∈ records, Bindable r.importPath r.storedPath := by decide
  obtain ⟨-, hfolds, happends⟩ := load_after_appends hgrounded hseen hload
  obtain ⟨d', hyields⟩ := happends (appendable_diskWith _) records
  exact ⟨⟨hgrounded, hseen, hload, hwhole, appendable_diskWith _⟩, d', hyields,
    hfolds hwhole records hrecords d' hyields⟩

/-- Behind a line that is not ended a record is lost. -/
theorem exists_load_append_ne :
    ¬ ∀ (d d' : Disk) (path : String) (m : Manifest) (r : PackageRecord), d.Grounded →
      Seen d path → load d path = .ok m → Bindable r.importPath r.storedPath →
      Yields (append path r) d () d' →
      load d' path = .ok (m.insert r.importPath r.storedPath) := by
  intro h
  have hload : load (diskWith "fmt -> /a") "m" = .ok ⟨[("fmt", "/a")]⟩ := by decide +kernel
  have hhang : Text.Hanging "fmt -> /a".toList :=
    ⟨[], "fmt -> /a".toList, rfl, .inl rfl, by decide, 'f', by decide, by decide⟩
  have hr : Bindable "os" "/b" := by decide
  obtain ⟨d', hyields, -⟩ :=
    exists_append (grounded_diskWith _) (appendable_diskWith "fmt -> /a") ⟨"os", "/b", []⟩
  have hbound := h _ d' "m" _ _ (grounded_diskWith _) (seen_diskWith _) hload hr hyields
  exact (load_append_iff (grounded_diskWith _) (seen_diskWith _) hload hr hyields).1 hbound
    ⟨"fmt -> /a", read_diskWith _, hhang⟩

end Manifest

end Workbench
