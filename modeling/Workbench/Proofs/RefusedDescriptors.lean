import Workbench.Proofs.StaleDescriptors

set_option autoImplicit false

/-! # What a refusal leaves of the descriptors

A request may be refused after it has begun: when the place for a file was made, when an asset was
fetched, or when the descriptor was found but not its file. The table of descriptors is as it was all
the same, with every path, mode and cursor, and so is the next number. The exception is a read from
a position: it moves the cursor before it looks for the file, so where the file is gone the read is
refused and the cursor stays where it was moved to. -/

namespace Workbench.FileSystem

variable {World α : Type} {v : View} {fs fs' : FileSystem} {number : Nat} {d : Descriptor}
  {e : Error}

/-- An operation moves a cursor to where nothing can be read: it reads from another position than
    that of the cursor, through a descriptor whose file is gone. -/
def Operation.Strays (fs : FileSystem) : Operation → Prop
  | .read number _ (some position) => ∃ d, Stale fs number d ∧ d.mode.readable = true ∧
      d.cursor ≠ position
  | _ => False

/-! ## Cursors -/

/-- A cursor that is moved to where it is stays. -/
theorem setCursor_self (hd : fs.descriptors.get? number = some d) :
    fs.setCursor number d.cursor = fs := by
  have hput : fs.descriptors.put number d = fs.descriptors := Dictionary.put_self hd
  rw [setCursor, Dictionary.update, hd]
  dsimp only
  rw [hput]

/-- A cursor that is moved elsewhere is another descriptor in the table. -/
theorem setCursor_not_sameTable (hd : fs.descriptors.get? number = some d) {cursor : Nat}
    (hcursor : d.cursor ≠ cursor) : ¬ SameTable fs (fs.setCursor number cursor) := by
  intro hsame
  have hget := get?_setCursor fs number cursor number
  rw [hsame.descriptors, hd, Option.map_some, if_pos rfl, Option.some.injEq] at hget
  exact hcursor (congrArg Descriptor.cursor hget)

/-- Where no file is, its bytes are not found. -/
theorem isFile_of_file_error {p : Path} (h : fs.file p = .error e) : fs.isFile p = false := by
  unfold file at h
  unfold isFile
  split at h
  · cases h
  · next hget =>
    rw [hget]
    rfl
  · next hget =>
    rw [hget]
    rfl

/-! ## Refusals -/

/-- A read that is refused has changed nothing, or moved the cursor of a descriptor whose file is
    gone. -/
theorem read_refused {length : Nat} {position : Option Nat}
    (h : fs.read number length position = (.error e, fs')) :
    fs' = fs ∨ ∃ d, Stale fs number d ∧ d.mode.readable = true ∧
      fs' = fs.setCursor number (position.getD d.cursor) := by
  have houtcome := read_outcome fs number length position
  rw [h] at houtcome
  cases houtcome with
  | refused => exact Or.inl rfl
  | missing d _ hreadable hmissing =>
    obtain ⟨hd, hmode, hfile⟩ := readableDescriptor_eq_ok_iff.1 hreadable
    exact Or.inr ⟨d, ⟨hd, hfile, isFile_of_file_error hmissing⟩, hmode, rfl⟩

theorem settle_refused {world : World} {result : Except Error FileSystem}
    (hrefused : (settle fs world result).1 = .error e) : (settle fs world result).2.1 = fs := by
  cases result with
  | ok fs₁ => cases hrefused
  | error e' => rfl

/-- Opening that is refused enters nothing, whatever was fetched or created before. -/
theorem Shows.openPath_refused (h : fs.Shows v) {mount : Option (Asset.Mount World)}
    {world : World} {path : String} {mode : OpenMode}
    (hrefused : (fs.openPath mount world path mode).1 = .error e) :
    SameTable fs (fs.openPath mount world path mode).2.1 := by
  rcases h.openPath_cases mount world path mode with
    ⟨e', fs', world', hopen, hsame⟩ | ⟨d, fs₁, world', hopen, -⟩
  · rwa [hopen]
  · rw [hopen] at hrefused
    cases hrefused

/-- What a refused operation has done to the table: nothing, unless it is a read from a position
    that found no file. -/
theorem Shows.perform_refused (h : fs.Shows v) {mount : Option (Asset.Mount World)} {world : World}
    {op : Operation} (hrefused : (fs.perform mount world op).1 = .error e) :
    SameTable fs (fs.perform mount world op).2.1 ∨
      ∃ number length position d, op = .read number length (some position) ∧ Stale fs number d ∧
        d.mode.readable = true ∧
        (fs.perform mount world op).2.1 = fs.setCursor number position := by
  have hsettle : ∀ {result : Except Error FileSystem},
      (settle fs world result).1 = .error e → SameTable fs (settle fs world result).2.1 := by
    intro result hresult
    rw [settle_refused hresult]
    exact .refl fs
  cases op with
  | read number length position =>
    rcases hread : fs.read number length position with ⟨result, fs'⟩
    rw [FileSystem.perform, hread] at hrefused ⊢
    cases result with
    | ok chunk => cases hrefused
    | error e' =>
      obtain rfl | ⟨d, hstale, hmode, rfl⟩ := read_refused hread
      · exact Or.inl (.refl _)
      cases position with
      | none =>
        -- without a position the cursor is moved to where it is
        refine Or.inl ?_
        dsimp only [Option.getD_none]
        rw [setCursor_self hstale.found]
        exact .refl fs
      | some position => exact Or.inr ⟨number, length, position, d, rfl, hstale, hmode, rfl⟩
  | openPath path mode =>
    refine Or.inl (h.openPath_refused (e := e) ?_)
    rw [FileSystem.perform] at hrefused
    rcases hopen : fs.openPath mount world path mode with ⟨result, fs', world'⟩
    rw [hopen] at hrefused
    cases result with
    | ok number => cases hrefused
    | error e' => exact congrArg Except.error (Except.error.inj hrefused)
  | rename source target =>
    refine Or.inl ?_
    rcases hrename : fs.rename source target with ⟨result, fs'⟩
    rw [FileSystem.perform, hrename] at hrefused ⊢
    cases result with
    | ok => cases hrefused
    | error e' =>
      have hsame := h.rename_refused (congrArg Prod.fst hrename)
      rw [hrename] at hsame
      dsimp only [finish] at hsame ⊢
      rw [hsame]
      exact .refl fs
  | write number data position =>
    refine Or.inl ?_
    rw [FileSystem.perform] at hrefused ⊢
    cases hwrite : fs.write number data position with
    | ok done =>
      rw [hwrite] at hrefused
      cases hrefused
    | error e' => exact .refl fs
  | stat path => exact Or.inl (OnlyNodes.stat mount fs world path).sameTable
  | readAll path => exact Or.inl (OnlyNodes.readAll mount fs world path).sameTable
  | makeDir path recursive => exact Or.inl (OnlyNodes.makeDir fs path recursive).sameTable
  | writeFile path data => exact Or.inl (OnlyNodes.writeFile fs path data).sameTable
  | close | truncateDescriptor | truncate | removeDir | unlink | setTimes | chdir =>
    exact Or.inl (hsettle hrefused)
  | statDescriptor | readDir | contains | cwd | resolve => exact Or.inl (.refl fs)
  | takeStdout | takeStderr | clearOutput => cases hrefused

/-- A read through a descriptor whose file is gone moves the cursor and is refused. -/
theorem Stale.read_eq (hstale : Stale fs number d) (hmode : d.mode.readable = true)
    (hnumber : number ≠ 0) (length position : Nat) :
    ∃ e, fs.read number length (some position) = (.error e, fs.setCursor number position) := by
  rw [read, if_neg hnumber, readableDescriptor_eq_ok_iff.2 ⟨hstale.found, hmode, hstale.isDir⟩]
  dsimp only [Option.getD_some]
  cases hfile : fs.file d.path with
  | error e => exact ⟨e, rfl⟩
  | ok contents =>
    have hthere := isFile_of_file hfile
    rw [hstale.absent] at hthere
    cases hthere

/-- An operation that strays is refused, and another cursor is in the table after it. -/
theorem Operation.Strays.perform {op : Operation} (hstrays : op.Strays fs) (h : Reachable fs)
    (mount : Option (Asset.Mount World)) (world : World) :
    (∃ e, (fs.perform mount world op).1 = .error e) ∧
      ¬ SameTable fs (fs.perform mount world op).2.1 := by
  cases op with
  | read number length position =>
    cases position with
    | none => cases hstrays
    | some position =>
      obtain ⟨d, hstale, hmode, hcursor⟩ := hstrays
      have hmem := (Dictionary.mem_keys_iff fs.descriptors number).2 (by rw [hstale.found]; rfl)
      have hnumber : number ≠ 0 := Nat.ne_of_gt (Nat.lt_of_lt_of_le (by decide)
        (h.numbered.mem number hmem))
      obtain ⟨e, hread⟩ := hstale.read_eq hmode hnumber length position
      rw [FileSystem.perform, hread]
      exact ⟨⟨e, rfl⟩, setCursor_not_sameTable hstale.found hcursor⟩
  | _ => cases hstrays

/-- An operation that is refused leaves the table of descriptors as it was, with every path, mode
    and cursor and with the next number, unless it strays. -/
theorem Reachable.refused_sameTable (h : Reachable fs) (mount : Option (Asset.Mount World))
    (world : World) (op : Operation) (hrefused : (fs.perform mount world op).1 = .error e)
    (hstrays : ¬ op.Strays fs) : SameTable fs (fs.perform mount world op).2.1 := by
  obtain ⟨v, hv⟩ := h.shows
  rcases hv.perform_refused hrefused with hsame | ⟨number, length, position, d, rfl, hd, hmode, heq⟩
  · exact hsame
  · by_cases hcursor : d.cursor = position
    · rw [heq, ← hcursor, setCursor_self hd.found]
      exact .refl fs
    · exact absurd ⟨d, hd, hmode, hcursor⟩ hstrays

/-- A file that was read in part is unlinked while it is open. -/
def bereft : FileSystem :=
  (performAll none (empty ⟨0, 0⟩) () [.writeFile "/a" "0123456789".toUTF8,
    .openPath "/a" .readOnly, .read 3 2 none, .unlink "/a"]).2.1

/-- Reading on through the descriptor of a file that is gone is refused, and its cursor stays. -/
theorem refused_sameTable_bereft :
    (∃ e, (bereft.perform none () (.read 3 1 none)).1 = .error e) ∧
      SameTable bereft (bereft.perform none () (.read 3 1 none)).2.1 := by
  have hreachable : Reachable bereft := .performAll none _ () (.new ⟨0, 0⟩)
  have hrefused : (bereft.perform none () (.read 3 1 none)).1 = .error (.notFound "/a") := rfl
  exact ⟨⟨_, hrefused⟩, Reachable.refused_sameTable hreachable none () (.read 3 1 none) hrefused id⟩

/-- Reading from a position is refused there as well, and moves the cursor. -/
theorem refused_sameTable_strays :
    ¬ ∀ (fs : FileSystem) (op : Operation) (e : Error), Reachable fs →
      (fs.perform none () op).1 = .error e → SameTable fs (fs.perform none () op).2.1 := by
  intro hclaim
  have hreachable : Reachable bereft := .performAll none _ () (.new ⟨0, 0⟩)
  have hd : bereft.descriptors.get? 3 =
      some ⟨⟨["a"], false, by decide, by decide⟩, .readOnly, 2, false⟩ := by decide +kernel
  have hstrays : (Operation.read 3 1 (some 5)).Strays bereft :=
    ⟨_, ⟨hd, rfl, by decide +kernel⟩, rfl, by decide⟩
  obtain ⟨⟨e, hrefused⟩, hmoved⟩ := hstrays.perform hreachable none ()
  exact hmoved (hclaim bereft _ e hreachable hrefused)

end Workbench.FileSystem
