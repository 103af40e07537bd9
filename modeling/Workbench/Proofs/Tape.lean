import Workbench.FileSystem.Operation
import Workbench.Proofs.Descriptors

set_option autoImplicit false

/-! # Files as tapes

A file with the descriptors that are open on it is a tape with heads: a list of bytes, and for each
head a cursor. Reads and writes are given on tapes first, where the end of what is written is an
exact number and the gap before it is filled with zeros. The operations on descriptors do to the
file system what the transfer does to the tape of the file, for runs of any length through any of
its descriptors, and nothing else. -/

namespace Workbench.FileSystem

variable {World : Type} {fs fs' : FileSystem} {p : Path}

/-- A place on a tape, and what may be done there. -/
structure Head where
  mode : OpenMode
  cursor : Nat
  deriving DecidableEq

/-- The bytes of a file and the heads on it, by the numbers of their descriptors. -/
structure Tape where
  bytes : List UInt8
  heads : Nat → Option Head

/-- A read or a write through a descriptor. -/
inductive Transfer where
  | read (number length : Nat) (position : Option Nat)
  | write (number : Nat) (data : ByteArray) (position : Option Nat)

namespace Transfer

/-- The descriptor that is used. -/
def number : Transfer → Nat
  | read number _ _ => number
  | write number _ _ => number

/-- The transfer as an operation of the file system. -/
def operation : Transfer → Operation
  | read number length position => .read number length position
  | write number data position => .write number data position

end Transfer

/-! ## Transfers on tapes -/

namespace Tape

/-- Move a head. -/
def seek (t : Tape) (number cursor : Nat) : Tape where
  bytes := t.bytes
  heads n := if n = number then (t.heads n).map fun head => { head with cursor := cursor }
    else t.heads n

/-- Lay bytes over those from `offset` on; a gap before them is filled with zeros. -/
def lay (bytes : List UInt8) (offset : Nat) (data : List UInt8) : List UInt8 :=
  (bytes ++ List.replicate (offset - bytes.length) 0).take offset ++ data ++
    bytes.drop (offset + data.length)

/-- Read through a head that is readable, from a position within the tape. -/
def read (t : Tape) (number length : Nat) (position : Option Nat) :
    Except String Reply × Tape :=
  match t.heads number with
  | none => (.error "EBADF", t)
  | some head =>
    if head.mode.readable then
      let start := min (position.getD head.cursor) t.bytes.length
      let chunk := (t.bytes.drop start).take length
      (.ok (.chunk ⟨⟨chunk⟩⟩), t.seek number (start + chunk.length))
    else (.error "EBADF", t)

/-- Write through a head that is writable, at the end if it appends; nothing is written past the
    largest size of a file. -/
def write (t : Tape) (number : Nat) (data : List UInt8) (position : Option Nat) :
    Except String Reply × Tape :=
  match t.heads number with
  | none => (.error "EBADF", t)
  | some head =>
    if head.mode.writable then
      let offset := if head.mode.append then t.bytes.length else position.getD head.cursor
      if Nat.pow 2 30 < offset + data.length then (.error "EINVAL", t)
      else (.ok (.number data.length),
        { t with bytes := lay t.bytes offset data }.seek number (offset + data.length))
    else (.error "EBADF", t)

/-- Carry out a transfer. -/
def step (t : Tape) : Transfer → Except String Reply × Tape
  | .read number length position => t.read number length position
  | .write number data position => t.write number data.data.toList position

/-- Carry out transfers one after the other. -/
def run (t : Tape) : List Transfer → List (Except String Reply) × Tape
  | [] => ([], t)
  | x :: rest =>
    let (reply, t) := t.step x
    let (replies, t) := t.run rest
    (reply :: replies, t)

theorem seek_seek (t : Tape) (number a b : Nat) :
    (t.seek number a).seek number b = t.seek number b := by
  simp only [seek, Tape.mk.injEq, true_and]
  funext n
  split_ifs with hn
  · rw [Option.map_map]
    rfl
  · rfl

end Tape

/-! ## The tape of a file -/

/-- The head that a descriptor is on a file, if it is open on that file. -/
def headOn (p : Path) (d : Descriptor) : Option Head :=
  if d.isDir = false ∧ d.path.parts = p.parts then some ⟨d.mode, d.cursor⟩ else none

/-- The bytes of the file at a path. -/
def content (fs : FileSystem) (p : Path) : List UInt8 :=
  match fs.nodes.get? p.fileKey with
  | some (.file data _) => data.data.toList
  | _ => []

/-- The file at a path as a tape. -/
def tape (fs : FileSystem) (p : Path) : Tape where
  bytes := fs.content p
  heads n := (fs.descriptors.get? n).bind (headOn p)

theorem headOn_eq_some_iff {d : Descriptor} {head : Head} : headOn p d = some head ↔
    d.isDir = false ∧ d.path.parts = p.parts ∧ head = ⟨d.mode, d.cursor⟩ := by
  unfold headOn
  split_ifs with h
  · simp only [Option.some.injEq, h, true_and, eq_comm]
  · simp only [false_iff]
    rintro ⟨hdir, hparts, -⟩
    exact h ⟨hdir, hparts⟩

theorem heads_eq_some {number : Nat} {head : Head} (h : (fs.tape p).heads number = some head) :
    ∃ d, fs.descriptors.get? number = some d ∧ d.isDir = false ∧ d.path.parts = p.parts ∧
      head = ⟨d.mode, d.cursor⟩ := by
  obtain ⟨d, hd, hhead⟩ := Option.bind_eq_some_iff.1 h
  exact ⟨d, hd, headOn_eq_some_iff.1 hhead⟩

theorem content_eq {data : ByteArray} {times : Times}
    (h : fs.nodes.get? p.fileKey = some (.file data times)) : fs.content p = data.data.toList := by
  rw [content, h]

theorem tape_setCursor (fs : FileSystem) (p : Path) (number cursor : Nat) :
    (fs.setCursor number cursor).tape p = (fs.tape p).seek number cursor := by
  simp only [tape, Tape.seek, setCursor, Tape.mk.injEq]
  refine ⟨rfl, ?_⟩
  funext n
  rw [Dictionary.get?_update]
  by_cases hn : n = number
  · subst hn
    rw [if_pos rfl, if_pos rfl, Option.bind_map, Option.map_bind]
    congr 1
    funext d
    simp only [Function.comp_apply, headOn]
    split_ifs <;> rfl
  · rw [if_neg (Ne.symm hn), if_neg hn]

theorem tape_setFile (fs : FileSystem) {p q : Path} (hq : q.parts = p.parts) (data : ByteArray)
    (times : Times) :
    (fs.setFile q data times).tape p = { fs.tape p with bytes := data.data.toList } := by
  have hkey : q.fileKey = p.fileKey := Path.fileKey_inj.2 hq
  have hget : (fs.setFile q data times).nodes.get? p.fileKey = some (.file data times) := by
    rw [setFile, put, Dictionary.get?_put, if_pos hkey]
  rw [tape, content_eq hget]
  rfl

theorem setFile_isFile (fs : FileSystem) {p q : Path} (hq : q.parts = p.parts) (data : ByteArray)
    (times : Times) : (fs.setFile q data times).isFile p = true := by
  rw [isFile, setFile, put, Dictionary.get?_put, if_pos (Path.fileKey_inj.2 hq)]
  rfl

/-- Growing, cutting and laying over, on byte arrays as on lists. -/
theorem overlay_toList (data : ByteArray) (offset : Nat) (bytes : ByteArray) :
    (overlay data offset bytes).data.toList =
      Tape.lay data.data.toList offset bytes.data.toList := by
  have hsize : data.data.toList.length = data.size := Array.length_toList
  have hbytes : bytes.data.toList.length = bytes.size := Array.length_toList
  have hresize : (resize data offset).data.toList =
      (data.data.toList ++ List.replicate (offset - data.data.toList.length) 0).take offset := by
    rw [hsize]
    unfold resize
    split_ifs with h
    · rw [ByteArray.data_extract, Array.toList_extract, List.extract_eq_take_drop, List.drop_zero,
        Nat.sub_zero, Nat.sub_eq_zero_of_le h, List.replicate_zero, List.append_nil]
    · rw [ByteArray.data_append, Array.toList_append, zeros, Array.toList_replicate,
        List.take_of_length_le]
      rw [List.length_append, List.length_replicate, hsize]
      omega
  have htail : (data.extract (offset + bytes.size) data.size).data.toList =
      data.data.toList.drop (offset + bytes.data.toList.length) := by
    rw [hbytes, ByteArray.data_extract, Array.toList_extract, List.extract_eq_take_drop,
      List.take_of_length_le]
    rw [List.length_drop, hsize]
  rw [overlay, ByteArray.data_append, ByteArray.data_append, Array.toList_append,
    Array.toList_append, hresize, htail, Tape.lay]

/-! ## Operations on descriptors are transfers -/

/-- Nothing has changed but the file at a path and the cursors of its heads. -/
structure Confined (p : Path) (fs fs' : FileSystem) : Prop where
  nodes : ∀ key ≠ p.fileKey, fs'.nodes.get? key = fs.nodes.get? key
  descriptors : ∀ n, (fs.tape p).heads n = none → fs'.descriptors.get? n = fs.descriptors.get? n
  next : fs'.nextDescriptor = fs.nextDescriptor
  cwd : fs'.cwd = fs.cwd
  stdout : fs'.stdout = fs.stdout
  stderr : fs'.stderr = fs.stderr

namespace Confined

theorem refl (p : Path) (fs : FileSystem) : Confined p fs fs :=
  ⟨fun _ _ => rfl, fun _ _ => rfl, rfl, rfl, rfl, rfl⟩

theorem trans {fs'' : FileSystem} (h : Confined p fs fs') (h' : Confined p fs' fs'') :
    Confined p fs fs'' where
  nodes key hkey := (h'.nodes key hkey).trans (h.nodes key hkey)
  descriptors n hn := by
    have hsame := h.descriptors n hn
    -- what is no head before is none after, as its descriptor is the same
    have hn' : (fs'.tape p).heads n = none := by
      simp only [tape] at hn ⊢
      rwa [hsame]
    exact (h'.descriptors n hn').trans hsame
  next := h'.next.trans h.next
  cwd := h'.cwd.trans h.cwd
  stdout := h'.stdout.trans h.stdout
  stderr := h'.stderr.trans h.stderr

theorem setFile (fs : FileSystem) {q : Path} (hq : q.parts = p.parts) (data : ByteArray)
    (times : Times) : Confined p fs (fs.setFile q data times) := by
  refine ⟨fun key hkey => ?_, fun _ _ => rfl, rfl, rfl, rfl, rfl⟩
  rw [FileSystem.setFile, put, Dictionary.get?_put, Path.fileKey_inj.2 hq, if_neg hkey.symm]

theorem setCursor (fs : FileSystem) {number : Nat} (hopen : ((fs.tape p).heads number).isSome)
    (cursor : Nat) : Confined p fs (fs.setCursor number cursor) := by
  refine ⟨fun _ _ => rfl, fun n hn => ?_, rfl, rfl, rfl, rfl⟩
  have hne : number ≠ n := by
    rintro rfl
    rw [hn] at hopen
    cases hopen
  rw [FileSystem.setCursor, Dictionary.get?_update, if_neg hne]

end Confined

/-- The file system has done what was expected of the tape of a file, and no more. -/
structure Plays (p : Path) (fs fs' : FileSystem) (t : Tape) : Prop where
  isFile : fs'.isFile p = true
  tape : fs'.tape p = t
  confined : Confined p fs fs'

theorem isFile_eq_true_iff : fs.isFile p = true ↔
    ∃ data times, fs.nodes.get? p.fileKey = some (.file data times) := by
  unfold isFile
  cases fs.nodes.get? p.fileKey with
  | none => simp
  | some node => cases node <;> simp [Node.isFile]

/-- What is known of a descriptor that is open on a file. -/
structure OpenOn (fs : FileSystem) (p : Path) (number : Nat) (d : Descriptor) (data : ByteArray)
    (times : Times) : Prop where
  least : firstDescriptor ≤ number
  found : fs.descriptors.get? number = some d
  isDir : d.isDir = false
  parts : d.path.parts = p.parts
  file : fs.file d.path = .ok (data, times)
  head : (fs.tape p).heads number = some ⟨d.mode, d.cursor⟩
  bytes : (fs.tape p).bytes = data.data.toList

theorem exists_openOn (hnumbered : Numbered fs) (hfile : fs.isFile p = true) {number : Nat}
    (hopen : ((fs.tape p).heads number).isSome) :
    ∃ d data times, OpenOn fs p number d data times := by
  obtain ⟨head, hhead⟩ := Option.isSome_iff_exists.1 hopen
  obtain ⟨d, hd, hisDir, hparts, rfl⟩ := heads_eq_some hhead
  obtain ⟨data, times, hget⟩ := isFile_eq_true_iff.1 hfile
  have hmem : number ∈ fs.descriptors.keys := (Dictionary.mem_keys_iff _ _).2 (by rw [hd]; rfl)
  have hdata : fs.file d.path = .ok (data, times) := by
    rw [FileSystem.file, Path.fileKey_inj.2 hparts, hget]
  exact ⟨d, data, times, hnumbered.mem number hmem, hd, hisDir, hparts, hdata, hhead,
    content_eq hget⟩

namespace OpenOn

variable {number : Nat} {d : Descriptor} {data : ByteArray} {times : Times}

theorem isSome (h : OpenOn fs p number d data times) : ((fs.tape p).heads number).isSome := by
  rw [h.head]
  rfl

theorem plays_refl (h : OpenOn fs p number d data times) : Plays p fs fs (fs.tape p) := by
  refine ⟨?_, rfl, Confined.refl p fs⟩
  have hfile := h.file
  unfold FileSystem.file at hfile
  split at hfile
  · next hget =>
    rw [Path.fileKey_inj.2 h.parts] at hget
    exact isFile_eq_true_iff.2 ⟨_, _, hget⟩
  · cases hfile
  · cases hfile

/-- Bytes are put into the file, and the cursor that was used is moved. -/
theorem plays_set (h : OpenOn fs p number d data times) (data' : ByteArray) (times' : Times)
    (cursor : Nat) : Plays p fs ((fs.setFile d.path data' times').setCursor number cursor)
      ({ fs.tape p with bytes := data'.data.toList }.seek number cursor) where
  isFile := setFile_isFile fs h.parts data' times'
  tape := by rw [tape_setCursor, tape_setFile fs h.parts]
  confined := by
    refine (Confined.setFile fs h.parts data' times').trans (Confined.setCursor _ ?_ cursor)
    rw [tape_setFile fs h.parts]
    exact h.isSome

/-- Moving the cursor first makes no difference to what comes of it. -/
theorem plays_set_moved (h : OpenOn fs p number d data times) (data' : ByteArray) (times' : Times)
    (before cursor : Nat) :
    Plays p fs (((fs.setCursor number before).setFile d.path data' times').setCursor number cursor)
      ({ fs.tape p with bytes := data'.data.toList }.seek number cursor) where
  isFile := setFile_isFile _ h.parts data' times'
  tape := by
    rw [tape_setCursor, tape_setFile _ h.parts, tape_setCursor]
    exact Tape.seek_seek { fs.tape p with bytes := data'.data.toList } number before cursor
  confined := by
    have hmoved := Confined.setCursor fs h.isSome before
    have hput := Confined.setFile (fs.setCursor number before) h.parts data' times'
    refine (hmoved.trans hput).trans (Confined.setCursor _ ?_ cursor)
    rw [tape_setFile _ h.parts, tape_setCursor]
    simp only [Tape.seek, if_true, Option.isSome_map]
    exact h.isSome

theorem readableDescriptor_eq (h : OpenOn fs p number d data times) :
    fs.readableDescriptor number =
      if d.mode.readable then .ok d else .error (.badDescriptor number) := by
  have hd : fs.descriptor number = .ok d := by rw [descriptor, h.found]
  rw [readableDescriptor, hd]
  cases hreadable : d.mode.readable <;>
    simp [bind, Except.bind, pure, Except.pure, throw, throwThe, MonadExceptOf.throw, hreadable,
      h.isDir]

/-- Reading a file through a descriptor is reading the tape of the file. -/
theorem read_plays (h : OpenOn fs p number d data times) (length : Nat) (position : Option Nat) :
    ∃ result fs', fs.read number length position = (result, fs') ∧
      (result.map Reply.chunk).mapError Error.code =
        ((fs.tape p).read number length position).1 ∧
      Plays p fs fs' ((fs.tape p).read number length position).2 := by
  have hnumber : number ≠ 0 := by
    have := h.least
    unfold firstDescriptor at this
    omega
  rw [read, if_neg hnumber, h.readableDescriptor_eq]
  simp only [Tape.read, h.head]
  cases hreadable : d.mode.readable with
  | false =>
    simp only [Bool.false_eq_true, if_false]
    exact ⟨_, _, rfl, rfl, h.plays_refl⟩
  | true =>
    have hlength : data.data.toList.length = data.size := Array.length_toList
    simp only [if_true, h.file, h.bytes, hlength]
    set start := min (position.getD d.cursor) data.size with hstart
    have hchunk : (data.extract start (start + length)).data.toList =
        (data.data.toList.drop start).take length := by
      rw [ByteArray.data_extract, Array.toList_extract, List.extract_eq_take_drop,
        Nat.add_sub_cancel_left]
    have hsize : (data.extract start (start + length)).size =
        ((data.data.toList.drop start).take length).length := by
      rw [← hchunk, Array.length_toList]
      rfl
    have hset := h.plays_set_moved data { times with accessed := fs.clock }
      (position.getD d.cursor) (start + (data.extract start (start + length)).size)
    refine ⟨_, _, rfl, ?_, ?_⟩
    · rw [← hchunk]
      rfl
    · rw [← hsize]
      rw [← h.bytes] at hset
      exact hset

theorem boundedEnd_eq (offset length : Nat) : boundedEnd offset length =
    if Nat.pow 2 30 < offset + length then
      .error (.invalidArgument ("file size past " ++ toString maxFileSize ++ " bytes (offset " ++
        toString offset ++ ", length " ++ toString length ++ ")"))
    else .ok (offset + length) := by
  unfold boundedEnd
  split_ifs with hle hlt hlt
  · exact absurd hlt (Nat.not_lt.2 hle)
  · rfl
  · rfl
  · exact absurd (Nat.not_lt.1 hlt) hle

/-- Writing a file through a descriptor is writing on the tape of the file. -/
theorem write_plays (h : OpenOn fs p number d data times) (bytes : ByteArray)
    (position : Option Nat) (mount : Option (Asset.Mount World)) (world : World) :
    ∃ reply fs', fs.perform mount world (.write number bytes position) = (reply, fs', world) ∧
      reply.mapError Error.code = ((fs.tape p).write number bytes.data.toList position).1 ∧
      Plays p fs fs' ((fs.tape p).write number bytes.data.toList position).2 := by
  have hnumber : number ≠ 0 ∧ number ≠ 1 ∧ number ≠ 2 := by
    have := h.least
    unfold firstDescriptor at this
    omega
  obtain ⟨h0, h1, h2⟩ := hnumber
  have hd : fs.descriptor number = .ok d := by rw [descriptor, h.found]
  have hlength : data.data.toList.length = data.size := Array.length_toList
  have hbytes : bytes.data.toList.length = bytes.size := Array.length_toList
  have hwrite : fs.write number bytes position =
      if d.mode.writable then
        (boundedEnd (if d.mode.append then data.size else position.getD d.cursor) bytes.size).map
          fun finish => (bytes.size, (fs.setFile d.path
            (overlay data (if d.mode.append then data.size else position.getD d.cursor) bytes)
            { times with modified := fs.clock, changed := fs.clock }).setCursor number finish)
      else .error (.badDescriptor number) := by
    simp only [write, if_neg h0, if_neg h1, if_neg h2, hd, h.file, bind, Except.bind]
    cases d.mode.writable with
    | false => rfl
    | true =>
      rcases boundedEnd (if d.mode.append then data.size else position.getD d.cursor) bytes.size
        with e | finish <;> rfl
  rw [perform, hwrite]
  simp only [Tape.write, h.head, h.bytes, hlength, hbytes]
  cases hwritable : d.mode.writable with
  | false =>
    simp only [Bool.false_eq_true, if_false]
    exact ⟨_, _, rfl, rfl, h.plays_refl⟩
  | true =>
    simp only [if_true]
    set offset := if d.mode.append then data.size else position.getD d.cursor
    rw [boundedEnd_eq]
    split_ifs with hpast
    · exact ⟨_, _, rfl, rfl, h.plays_refl⟩
    · have hset := h.plays_set (overlay data offset bytes)
        { times with modified := fs.clock, changed := fs.clock } (offset + bytes.size)
      rw [overlay_toList] at hset
      exact ⟨_, _, rfl, rfl, hset⟩

end OpenOn

/-! ## Runs of transfers -/

theorem Tape.seek_isSome (t : Tape) (number cursor n : Nat) :
    ((t.seek number cursor).heads n).isSome = (t.heads n).isSome := by
  simp only [seek]
  split_ifs
  · exact Option.isSome_map
  · rfl

/-- A transfer brings no head to the tape and takes none away. -/
theorem Tape.step_isSome (t : Tape) (x : Transfer) (n : Nat) :
    ((t.step x).2.heads n).isSome = (t.heads n).isSome := by
  cases x with
  | read number length position =>
    simp only [step, read]
    split
    · rfl
    · split_ifs
      · exact t.seek_isSome number _ n
      · rfl
  | write number data position =>
    simp only [step, write]
    split
    · rfl
    · split_ifs
      · rfl
      · exact seek_isSome _ number _ n
      · rfl
      · exact seek_isSome _ number _ n
      · rfl

/-- One transfer through a descriptor of a file. -/
theorem transfer_plays (hnumbered : Numbered fs) (hfile : fs.isFile p = true) {x : Transfer}
    (hopen : ((fs.tape p).heads x.number).isSome) (mount : Option (Asset.Mount World))
    (world : World) :
    ∃ reply fs', fs.perform mount world x.operation = (reply, fs', world) ∧
      reply.mapError Error.code = ((fs.tape p).step x).1 ∧
        Plays p fs fs' ((fs.tape p).step x).2 := by
  obtain ⟨d, data, times, h⟩ := exists_openOn hnumbered hfile hopen
  cases x with
  | read number length position =>
    obtain ⟨result, fs', hread, hresult, hplays⟩ := h.read_plays length position
    refine ⟨result.map .chunk, fs', ?_, hresult, hplays⟩
    rw [Transfer.number] at hread
    rw [Transfer.operation, perform, hread]
  | write number bytes position => exact h.write_plays bytes position mount world

/-- Carry out transfers one after the other. The clock is set before each. -/
def transferAll (mount : Option (Asset.Mount World)) (fs : FileSystem) (world : World) :
    List (Time × Transfer) → List (Except Error Reply) × FileSystem × World
  | [] => ([], fs, world)
  | (now, x) :: rest =>
    let (reply, fs, world) := perform mount { fs with clock := now } world x.operation
    let (replies, fs, world) := transferAll mount fs world rest
    (reply :: replies, fs, world)

theorem Numbered.plays_all (hnumbered : Numbered fs) (hfile : fs.isFile p = true)
    (transfers : List (Time × Transfer))
    (hopen : ∀ x ∈ transfers, ((fs.tape p).heads x.2.number).isSome)
    (mount : Option (Asset.Mount World)) (world : World) :
    ∃ replies fs', transferAll mount fs world transfers = (replies, fs', world) ∧
      replies.map (·.mapError Error.code) = ((fs.tape p).run (transfers.map Prod.snd)).1 ∧
      Plays p fs fs' ((fs.tape p).run (transfers.map Prod.snd)).2 := by
  induction transfers generalizing fs with
  | nil => exact ⟨[], fs, rfl, rfl, hfile, rfl, Confined.refl p fs⟩
  | cons entry rest ih =>
    obtain ⟨now, x⟩ := entry
    have hx : ((fs.tape p).heads x.number).isSome := hopen (now, x) List.mem_cons_self
    -- the clock is no part of the tape, so the first transfer may start at any time
    have hnumbered₀ : Numbered { fs with clock := now } := ⟨hnumbered.next, hnumbered.mem⟩
    obtain ⟨reply, fs₁, hperform, hreply, hplays⟩ :=
      transfer_plays hnumbered₀ hfile hx mount world
    have hgrown := Grown.perform mount { fs with clock := now } world x.operation
    rw [hperform] at hgrown
    have hnumbered₁ : Numbered fs₁ := hnumbered₀.grown hgrown
    have htape : fs₁.tape p = ((fs.tape p).step x).2 := hplays.tape
    have hopen₁ : ∀ y ∈ rest, ((fs₁.tape p).heads y.2.number).isSome := by
      intro y hy
      rw [htape, Tape.step_isSome]
      exact hopen y (List.mem_cons_of_mem _ hy)
    obtain ⟨replies, fs', hrest, hreplies, hplays'⟩ := ih hnumbered₁ hplays.isFile hopen₁
    rw [htape] at hreplies hplays'
    have hconfined : Confined p fs fs₁ := ⟨hplays.confined.nodes, hplays.confined.descriptors,
      hplays.confined.next, hplays.confined.cwd, hplays.confined.stdout, hplays.confined.stderr⟩
    refine ⟨reply :: replies, fs', ?_, ?_, hplays'.isFile, hplays'.tape,
      hconfined.trans hplays'.confined⟩
    · rw [transferAll, hperform]
      dsimp only
      rw [hrest]
    · rw [List.map_cons, hreply, hreplies]
      rfl

/-- Reads and writes through any of the descriptors of a file, in any order, do to the file system
    what they do to the tape of the file. -/
theorem Reachable.transferAll_plays (h : Reachable fs) (hfile : fs.isFile p = true)
    (transfers : List (Time × Transfer))
    (hopen : ∀ x ∈ transfers, ((fs.tape p).heads x.2.number).isSome)
    (mount : Option (Asset.Mount World)) (world : World) :
    ∃ replies fs', transferAll mount fs world transfers = (replies, fs', world) ∧
      replies.map (·.mapError Error.code) = ((fs.tape p).run (transfers.map Prod.snd)).1 ∧
      Plays p fs fs' ((fs.tape p).run (transfers.map Prod.snd)).2 :=
  h.numbered.plays_all hfile transfers hopen mount world

/-- Two descriptors on a file of three bytes: the first writes past the end, the second appends
    whatever position it is given, and an offset that is too large changes nothing. -/
theorem transferAll_plays_interleaved :
    ∃ replies fs', transferAll none (performAll none (empty ⟨0, 0⟩) () [.writeFile "/a" "abc".toUTF8,
        .openPath "/a" (.ofBits 0o2), .openPath "/a" (.ofBits 0o2001)]).2.1 ()
        [(⟨1, 0⟩, .write 3 "d".toUTF8 (some 4)), (⟨1, 0⟩, .write 4 "e".toUTF8 (some 0)),
          (⟨2, 0⟩, .read 3 8 none), (⟨3, 0⟩, .write 3 "f".toUTF8 (some (Nat.pow 2 64 - 1))),
          (⟨4, 0⟩, .read 4 1 none), (⟨4, 0⟩, .read 3 2 (some 1))] = (replies, fs', ()) ∧
      replies.map (·.mapError Error.code) = [.ok (.number 1), .ok (.number 1),
        .ok (.chunk "e".toUTF8), .error "EINVAL", .error "EBADF", .ok (.chunk "bc".toUTF8)] ∧
      (fs'.tape ⟨["a"], false, by decide, by decide⟩).bytes = [97, 98, 99, 0, 100, 101] := by
  have hreachable : Reachable (performAll none (empty ⟨0, 0⟩) () [.writeFile "/a" "abc".toUTF8,
      .openPath "/a" (.ofBits 0o2), .openPath "/a" (.ofBits 0o2001)]).2.1 :=
    .performAll none _ () (.new ⟨0, 0⟩)
  obtain ⟨replies, fs', hrun, hreplies, hplays⟩ := Reachable.transferAll_plays hreachable
    (p := ⟨["a"], false, by decide, by decide⟩) rfl
    [(⟨1, 0⟩, .write 3 "d".toUTF8 (some 4)), (⟨1, 0⟩, .write 4 "e".toUTF8 (some 0)),
      (⟨2, 0⟩, .read 3 8 none), (⟨3, 0⟩, .write 3 "f".toUTF8 (some (Nat.pow 2 64 - 1))),
      (⟨4, 0⟩, .read 4 1 none), (⟨4, 0⟩, .read 3 2 (some 1))] (by decide) none ()
  refine ⟨replies, fs', hrun, hreplies.trans rfl, ?_⟩
  rw [hplays.tape]
  rfl

end Workbench.FileSystem
