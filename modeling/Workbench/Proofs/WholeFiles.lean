import Workbench.Proofs.Descriptors
import Workbench.Proofs.Footprint

set_option autoImplicit false

/-! # Reading a file whole

The bytes of a file are had in two ways: by its path at once, or by opening it and reading through
the descriptor, chunk after chunk, until a chunk is empty. Both begin with the same fetch and look
for the file differently after it. Opening honours the spelling of the path, so one that is spelled
as a directory leads to no file; reading at once looks under the key of a file, however the path was
spelled. This is the only difference: otherwise the two come to the same bytes, whatever the sizes
of the chunks are. -/

namespace Workbench.FileSystem

variable {World : Type} {fs : FileSystem} {number : Nat} {data bytes : ByteArray}

/-- Read through a descriptor until a chunk is empty, each time as many bytes as are asked for, and
    with the clock set before. Where the requests run out first, nothing comes of it. -/
def readChunks (fs : FileSystem) (number : Nat) : List (Time × Nat) → Except Error (Option ByteArray)
  | [] => .ok none
  | (now, size) :: rest =>
    match FileSystem.read { fs with clock := now } number size none with
    | (.error e, _) => .error e
    | (.ok chunk, fs) =>
      if chunk.size = 0 then .ok (some .empty)
      else (fs.readChunks number rest).map (·.map (chunk ++ ·))

/-! ## One chunk after the other -/

/-- A file is being read through a descriptor, and so many of its bytes have been. -/
structure Reading (fs : FileSystem) (number : Nat) (data : ByteArray) (offset : Nat) : Prop where
  standard : number ≠ 0
  within : offset ≤ data.size
  opened : ∃ d times, fs.descriptors.get? number = some d ∧ d.mode.readable = true ∧
    d.isDir = false ∧ d.cursor = offset ∧ fs.file d.path = .ok (data, times)

theorem file_setFile (fs : FileSystem) (p : Path) (data : ByteArray) (times : Times) :
    (fs.setFile p data times).file p = .ok (data, times) := by
  unfold file
  rw [setFile, put, Dictionary.get?_put, if_pos rfl]

/-- Bytes that are asked for past the end are not there. -/
theorem extract_min_size (data : ByteArray) {offset : Nat} (hwithin : offset ≤ data.size)
    (stop : Nat) : data.extract offset (min stop data.size) = data.extract offset stop := by
  rcases le_total stop data.size with hle | hle
  · rw [min_eq_left hle]
  · have hrest : data.extract data.size stop = .empty :=
      ByteArray.extract_eq_empty_iff.2 (min_le_right _ _)
    rw [min_eq_right hle, ← ByteArray.append_empty (b := data.extract offset data.size), ← hrest,
      ByteArray.extract_append_extract, min_eq_left hwithin, max_eq_right hle]

/-- What one read yields is the next bytes, and reading goes on behind them. -/
theorem Reading.read {offset : Nat} (h : Reading fs number data offset) (size : Nat) :
    ∃ fs', fs.read number size none =
        (.ok (data.extract offset (min (offset + size) data.size)), fs') ∧
      Reading fs' number data (min (offset + size) data.size) := by
  obtain ⟨d, times, hd, hreadable, hdir, rfl, hfile⟩ := h.opened
  have hstart : min d.cursor data.size = d.cursor := min_eq_left h.within
  have hstop : d.cursor + (data.extract d.cursor (d.cursor + size)).size =
      min (d.cursor + size) data.size := by
    rw [ByteArray.size_extract]
    have := h.within
    omega
  rw [FileSystem.read, if_neg h.standard, readableDescriptor_eq_ok_iff.2 ⟨hd, hreadable, hdir⟩,
    extract_min_size data h.within]
  simp only [Option.getD_none, hfile, hstart, hstop]
  refine ⟨_, rfl, h.standard, min_le_right _ _,
    { d with cursor := min (d.cursor + size) data.size }, { times with accessed := fs.clock }, ?_,
    hreadable, hdir, rfl, file_setFile _ d.path data _⟩
  simp only [setCursor, setFile, put, Dictionary.get?_update, if_true, hd, Option.map_some]

/-- Chunks add up to the bytes from where reading began to the end of the file. The end is reached
    at the latest when there were more requests than bytes. -/
theorem Reading.readChunks {offset : Nat} (h : Reading fs number data offset)
    {requests : List (Time × Nat)} (hsizes : ∀ request ∈ requests, 0 < request.2) :
    (fs.readChunks number requests = .ok none ∧ requests.length ≤ data.size - offset) ∨
      fs.readChunks number requests = .ok (some (data.extract offset data.size)) := by
  induction requests generalizing fs offset with
  | nil => exact Or.inl ⟨rfl, Nat.zero_le _⟩
  | cons request rest ih =>
    obtain ⟨now, size⟩ := request
    have hsize : 0 < size := hsizes _ List.mem_cons_self
    have hwithin := h.within
    have hticked : Reading { fs with clock := now } number data offset :=
      ⟨h.standard, h.within, h.opened⟩
    obtain ⟨fs', hread, hreading⟩ := hticked.read size
    rw [FileSystem.readChunks, hread]
    dsimp only
    rw [ByteArray.size_extract]
    split
    · next hend =>
      -- a chunk that was asked for is empty at the end of the file only
      have hdone : data.extract offset data.size = .empty :=
        ByteArray.extract_eq_empty_iff.2 (by omega)
      exact Or.inr (by rw [hdone])
    · next hmore =>
      have hjoin : data.extract offset (min (offset + size) data.size) ++
          data.extract (min (offset + size) data.size) data.size = data.extract offset data.size := by
        rw [ByteArray.extract_append_extract, min_eq_left (by omega),
          max_eq_right (min_le_right _ _)]
      rcases ih hreading fun request hrequest => hsizes request (List.mem_cons_of_mem _ hrequest) with
        ⟨hnone, hlength⟩ | hall
      · refine Or.inl ⟨by rw [hnone]; rfl, ?_⟩
        rw [List.length_cons]
        omega
      · refine Or.inr ?_
        rw [hall, ← hjoin]
        rfl

/-- Reading through a descriptor to the end of its file yields these bytes, whatever the sizes of the
    chunks are: no read is refused, and the end is reached when there were more reads than bytes, if
    not before. -/
structure ReadsOut (fs : FileSystem) (number : Nat) (bytes : ByteArray) : Prop where
  yields : ∀ requests : List (Time × Nat), (∀ request ∈ requests, 0 < request.2) →
    fs.readChunks number requests = .ok none ∨ fs.readChunks number requests = .ok (some bytes)
  ends : ∀ requests : List (Time × Nat), (∀ request ∈ requests, 0 < request.2) →
    bytes.size < requests.length → fs.readChunks number requests ≠ .ok none

theorem Reading.readsOut (h : Reading fs number data 0) : ReadsOut fs number data where
  yields requests hsizes := by
    rcases h.readChunks hsizes with ⟨hnone, -⟩ | hall
    · exact Or.inl hnone
    · rw [hall, ByteArray.extract_zero_size]
      exact Or.inr rfl
  ends requests hsizes hmany hnone := by
    rcases h.readChunks hsizes with ⟨-, hlength⟩ | hall
    · omega
    · rw [hall] at hnone
      cases hnone

/-- There is one outcome of reading to the end. -/
theorem ReadsOut.unique (h : ReadsOut fs number data) (h' : ReadsOut fs number bytes) :
    data = bytes := by
  -- as many requests for one byte as are enough for either of the two
  set requests := List.replicate (data.size + bytes.size + 1) ((⟨0, 0⟩, 1) : Time × Nat)
  have hsizes : ∀ request ∈ requests, 0 < request.2 := by
    intro request hrequest
    rw [(List.mem_replicate.1 hrequest).2]
    exact Nat.one_pos
  have hlength : requests.length = data.size + bytes.size + 1 := List.length_replicate
  have hdata := (h.yields requests hsizes).resolve_left (h.ends requests hsizes (by omega))
  have hbytes := (h'.yields requests hsizes).resolve_left (h'.ends requests hsizes (by omega))
  rw [hdata] at hbytes
  exact Option.some.inj (Except.ok.inj hbytes)

/-! ## Opening a path for reading -/

/-- Opening a path for reading leads to a file, and to these bytes when it is read out. -/
def OpensTo (mount : Option (Asset.Mount World)) (fs : FileSystem) (world : World) (text : String)
    (bytes : ByteArray) : Prop :=
  ∃ number d fs' world', fs.openPath mount world text .readOnly = (.ok number, fs', world') ∧
    fs'.descriptors.get? number = some d ∧ d.isDir = false ∧ ReadsOut fs' number bytes

/-- A path leads to a file, after a fetch if nothing is there. -/
def LeadsTo (mount : Option (Asset.Mount World)) (fs : FileSystem) (world : World) (text : String)
    (p : Path) (bytes : ByteArray) : Prop :=
  fs.resolve text = .ok p ∧ ∃ fs₁ world₁ times,
    populate mount fs world p = (.ok (), fs₁, world₁) ∧ fs₁.file p = .ok (bytes, times)

/-- A file is read whole where a path leads to it, however the path is spelled. -/
theorem readAll_eq_ok_iff (mount : Option (Asset.Mount World)) (fs : FileSystem) (world : World)
    (text : String) (bytes : ByteArray) :
    (fs.readAll mount world text).1 = .ok bytes ↔ ∃ p, LeadsTo mount fs world text p bytes := by
  unfold readAll withFetched LeadsTo
  cases hp : fs.resolve text with
  | error e => simp
  | ok p =>
    rcases hpopulate : populate mount fs world p with ⟨result, fs₁, world₁⟩
    cases result with
    | error e => simp [hpopulate]
    | ok =>
      simp only [Except.ok.injEq, exists_eq_left', hpopulate, Prod.mk.injEq, true_and]
      unfold readLocal
      cases hfile : fs₁.file p with
      | error e =>
        simp only [reduceCtorEq, false_iff]
        rintro ⟨_, _, times, ⟨rfl, rfl⟩, h⟩
        rw [hfile] at h
        cases h
      | ok contents =>
        obtain ⟨data, times⟩ := contents
        simp only [Except.ok.injEq]
        constructor
        · rintro rfl
          exact ⟨fs₁, world₁, times, ⟨rfl, rfl⟩, hfile⟩
        · rintro ⟨_, _, times', ⟨rfl, rfl⟩, h⟩
          rw [hfile] at h
          cases h
          rfl

/-- A file that is opened for reading can be read from its beginning on. -/
theorem addDescriptor_reading {p : Path} {times : Times} (hnext : firstDescriptor ≤ fs.nextDescriptor)
    (hfile : fs.file p = .ok (data, times)) :
    Reading (fs.addDescriptor ⟨p, .readOnly, 0, false⟩).2 fs.nextDescriptor data 0 := by
  refine ⟨?_, Nat.zero_le _, ⟨p, .readOnly, 0, false⟩, times, ?_, rfl, rfl, rfl, hfile⟩
  · rw [firstDescriptor] at hnext
    omega
  · rw [addDescriptor, Dictionary.get?_put, if_pos rfl]

theorem openLocal_readOnly_eq {p : Path} {times : Times} (hspelled : p.trailing = false)
    (hfile : fs.file p = .ok (data, times)) :
    openLocal .readOnly fs p = fs.addDescriptor ⟨p, .readOnly, 0, false⟩ := by
  have hfind : fs.find? p = some (.file data times) := by
    unfold file at hfile
    unfold find?
    split at hfile
    · next hget =>
      cases hfile
      rw [hspelled, if_neg Bool.false_ne_true, hget]
    · cases hfile
    · cases hfile
  have hcreated : fs.createFor p .readOnly = .ok fs := rfl
  unfold openLocal
  simp only [hcreated, hfind, openFile, hfile]
  rfl

/-- What is opened for reading and is no directory is a file, at a path that is not spelled as a
    directory. -/
theorem file_of_openLocal_readOnly {p : Path} {fs' : FileSystem} {d : Descriptor}
    (hopen : openLocal .readOnly fs p = (.ok number, fs'))
    (hd : fs'.descriptors.get? number = some d) (hdir : d.isDir = false) :
    p.trailing = false ∧ ∃ contents, fs.file p = .ok contents := by
  have hcreated : fs.createFor p .readOnly = .ok fs := rfl
  unfold openLocal at hopen
  simp only [hcreated] at hopen
  split at hopen
  · cases hopen
  · split at hopen
    · cases hopen
    · -- the descriptor of a directory says so
      cases hopen
      rw [Dictionary.get?_put, if_pos rfl] at hd
      cases hd
      cases hdir
  · next data times hfind =>
    refine ⟨?_, ?_⟩
    · unfold find? at hfind
      split at hfind
      · have hisDir := (Option.filter_eq_some_iff.1 hfind).2
        cases hisDir
      · next hspelled => exact Bool.not_eq_true _ ▸ hspelled
    · unfold openFile at hopen
      split at hopen
      · cases hopen
      · exact ⟨_, ‹_›⟩

/-- A path is opened and read out where it leads to a file and is not spelled as a directory. -/
theorem Numbered.opensTo_iff (h : Numbered fs) (mount : Option (Asset.Mount World)) (world : World)
    (text : String) (bytes : ByteArray) : OpensTo mount fs world text bytes ↔
      ∃ p, LeadsTo mount fs world text p bytes ∧ p.trailing = false := by
  have hnext : ∀ {p fs₁ world₁}, populate mount fs world p = (.ok (), fs₁, world₁) →
      firstDescriptor ≤ fs₁.nextDescriptor := by
    intro p fs₁ world₁ hpopulate
    have hsame := (OnlyNodes.populate mount fs world p).sameTable
    rw [hpopulate] at hsame
    exact hsame.next ▸ h.next
  constructor
  · rintro ⟨number, d, fs', world', hopen, hd, hdir, hreads⟩
    unfold openPath withFetched at hopen
    cases hp : fs.resolve text with
    | error e =>
      rw [hp] at hopen
      cases hopen
    | ok p =>
      rcases hpopulate : populate mount fs world p with ⟨result, fs₁, world₁⟩
      cases result with
      | error e =>
        simp only [hp, hpopulate] at hopen
        cases hopen
      | ok =>
        have hlocal : openLocal .readOnly fs₁ p = (.ok number, fs') := by
          simp only [hp, hpopulate, Prod.mk.injEq] at hopen
          exact Prod.ext hopen.1 hopen.2.1
        obtain ⟨hspelled, ⟨data, times⟩, hfile⟩ := file_of_openLocal_readOnly hlocal hd hdir
        rw [openLocal_readOnly_eq hspelled hfile] at hlocal
        cases hlocal
        have hreading := (addDescriptor_reading (hnext hpopulate) hfile).readsOut
        obtain rfl := hreading.unique hreads
        exact ⟨p, ⟨hp, fs₁, world₁, times, hpopulate, hfile⟩, hspelled⟩
  · rintro ⟨p, ⟨hp, fs₁, world₁, times, hpopulate, hfile⟩, hspelled⟩
    have hreading := addDescriptor_reading (hnext hpopulate) hfile
    obtain ⟨d, -, hd, -, hdir, -⟩ := hreading.opened
    refine ⟨_, d, _, world₁, ?_, hd, hdir, hreading.readsOut⟩
    unfold openPath withFetched
    simp only [hp, hpopulate, openLocal_readOnly_eq hspelled hfile]
    rfl

/-- Nothing is fetched for a path that is spelled as a directory. -/
theorem populate_of_trailing {p : Path} (hspelled : p.trailing = true)
    (mount : Option (Asset.Mount World)) (fs : FileSystem) (world : World) :
    populate mount fs world p = (.ok (), fs, world) :=
  populate_of_uncovered (fun _ _ => Or.inl hspelled) fs world

/-! ## The two ways agree -/

/-- Reading a file whole by its path yields what opening the path for reading and reading to the end
    of the file yields, and fails where that does, unless the path spells a file as a directory. -/
theorem Reachable.readAll_iff_opensTo (h : Reachable fs) (mount : Option (Asset.Mount World))
    (world : World) (text : String) (bytes : ByteArray)
    (hspelled : ∀ p, fs.resolve text = .ok p → p.trailing = true → fs.isFile p = false) :
    (fs.readAll mount world text).1 = .ok bytes ↔ OpensTo mount fs world text bytes := by
  rw [readAll_eq_ok_iff, h.numbered.opensTo_iff]
  constructor
  · rintro ⟨p, hleads⟩
    refine ⟨p, hleads, ?_⟩
    obtain ⟨hp, fs₁, world₁, times, hpopulate, hfile⟩ := hleads
    rw [← Bool.not_eq_true]
    intro htrailing
    rw [populate_of_trailing htrailing] at hpopulate
    cases hpopulate
    exact absurd (isFile_of_file hfile) (Bool.eq_false_iff.1 (hspelled p hp htrailing))
  · rintro ⟨p, hleads, -⟩
    exact ⟨p, hleads⟩

/-- A file system in whose working directory nothing was fetched yet. -/
def inLibrary : FileSystem :=
  (performAll none (empty ⟨0, 0⟩) () [.makeDir "/lib" false, .chdir "/lib/"]).2.1

/-- An asset is opened by a path that goes up from the working directory and down again, since it is
    read whole by that path. -/
theorem readAll_iff_opensTo_fetched :
    OpensTo (some ⟨["/lib/"], fun world _ => (.ok "abc".toUTF8, world)⟩) inLibrary () "../lib/./a"
      "abc".toUTF8 := by
  have hreachable : Reachable inLibrary := .performAll none _ () (.new ⟨0, 0⟩)
  have hp : inLibrary.resolve "../lib/./a" = .ok ⟨["lib", "a"], false, by decide, by decide⟩ := rfl
  refine (Reachable.readAll_iff_opensTo hreachable _ () "../lib/./a" "abc".toUTF8 ?_).1 rfl
  intro p hp' htrailing
  obtain rfl := Except.ok.inj (hp.symm.trans hp')
  cases htrailing

/-- A file that is spelled as a directory is read whole, and is not opened. -/
theorem readAll_of_misspelled {text : String} {p : Path} {times : Times}
    (hp : fs.resolve text = .ok p) (htrailing : p.trailing = true)
    (hfile : fs.file p = .ok (data, times)) (mount : Option (Asset.Mount World)) (world : World) :
    (fs.readAll mount world text).1 = .ok data ∧
      ¬ ∃ number fs' world' d, fs.openPath mount world text .readOnly = (.ok number, fs', world') ∧
        fs'.descriptors.get? number = some d ∧ d.isDir = false := by
  refine ⟨(readAll_eq_ok_iff mount fs world text data).2 ⟨p, hp, fs, world, times,
    populate_of_trailing htrailing mount fs world, hfile⟩, ?_⟩
  rintro ⟨number, fs', world', d, hopen, hd, hdir⟩
  have hlocal : openLocal .readOnly fs p = (.ok number, fs') := by
    simp only [openPath, withFetched, hp, populate_of_trailing htrailing, Prod.mk.injEq] at hopen
    exact Prod.ext hopen.1 hopen.2.1
  obtain ⟨hspelled, -⟩ := file_of_openLocal_readOnly hlocal hd hdir
  rw [htrailing] at hspelled
  cases hspelled

/-- A slash at the end of the path of a file is the difference between the two ways. -/
theorem readAll_of_spelled_directory :
    ¬ ∀ (fs : FileSystem) (text : String) (bytes : ByteArray), Reachable fs →
      ((fs.readAll none () text).1 = .ok bytes ↔ OpensTo none fs () text bytes) := by
  intro hclaim
  set written := (performAll none (empty ⟨0, 0⟩) () [.writeFile "/f" "x".toUTF8]).2.1
  have hreachable : Reachable written := .performAll none _ () (.new ⟨0, 0⟩)
  have hp : written.resolve "/f/" = .ok ⟨["f"], true, by decide, by decide⟩ := by decide +kernel
  have hfile : written.file ⟨["f"], true, by decide, by decide⟩ =
      .ok ("x".toUTF8, .stamp ⟨0, 0⟩) := rfl
  obtain ⟨hread, hclosed⟩ := readAll_of_misspelled hp rfl hfile none ()
  obtain ⟨number, d, fs', world', hopen, hd, hdir, -⟩ :=
    (hclaim written "/f/" "x".toUTF8 hreachable).1 hread
  exact hclosed ⟨number, fs', world', d, hopen, hd, hdir⟩

end Workbench.FileSystem
