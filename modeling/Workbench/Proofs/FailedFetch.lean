import Workbench.Proofs.FolderStore

set_option autoImplicit false

/-! # Fetches that fail

A fetch that fails leaves storage in memory as it was. A folder stores an entry by two writes, first
of the bytes and then of the note, and a fetch that fails leaves it as it was too, unless it is the
note that was refused: then the bytes stay behind, and from there on the key counts as stored. -/

namespace Workbench

namespace Host.Disk

variable {d d' : Disk} {root name : String}

/-- As long as directories stay, the way of a name in a directory is the same. -/
theorem Housed.walk_join (h : Housed d d') (hroot : d.isDir root = true)
    (hname : Path.isComponent name = true) :
    d'.walk (Location.join root name) = d.walk (Location.join root name) := by
  obtain ⟨dir, hdir⟩ := exists_foldlM_of_isDir hroot
  have hdir' := foldlM_enter_of_dirs h.dirs hdir
  have hpieces : (Location.pieces (Location.join root name)).filter (· ≠ "") =
      piecesOf root ++ [name] := Package.piecesOf_join_name root hname
  have hrooted := Package.isRooted_join root (Package.isRooted_of_isComponent hname)
  rw [startOf] at hdir hdir'
  unfold walk
  simp only [hpieces, List.getLast?_concat, List.dropLast_concat, hrooted, h.cwd, hdir, hdir']

/-- Where one place has changed, a file elsewhere in a directory is read as before, or refused as
    before. -/
theorem Changed.read_join {place : List String} {shape : Option Shape}
    (h : Changed place shape d d') (hroot : d.isDir root = true)
    (hname : Path.isComponent name = true) (hne : d.placeOf (Location.join root name) ≠ place) :
    d'.read (Location.join root name) = d.read (Location.join root name) := by
  rw [read_eq_readSpot, read_eq_readSpot, h.housed.walk_join hroot hname]
  cases hwalk : d.walk (Location.join root name) with
  | error e => rfl
  | ok s =>
    rw [Except.bind, Except.bind, h.shapes, if_neg]
    rw [walk_parts hwalk]
    exact hne

end Host.Disk

namespace Asset

open Host (Disk)
open Host.Disk Host.Job

variable {σ ω : Type}

/-- A fetch that fails has not come to store anything, or that is what failed. -/
theorem Cache.failed_cases {s : Store σ} {source : ω → String → Except Error ByteArray × ω}
    {c : Cache σ ω} {key : String} {e : Error} (hget : ∀ state key, (s.get state key).2 = state)
    (h : (c.fetch s source key).1 = .error e) :
    (c.fetch s source key).2.store = c.store ∨
      ∃ bytes, Brings s source c key bytes ∧ (s.put c.store key bytes).1 = .error e ∧
        (c.fetch s source key).2.store = (s.put c.store key bytes).2 := by
  rcases hfound : s.get c.store key with ⟨found, store₁⟩
  obtain rfl : store₁ = c.store := by rw [← hget c.store key, hfound]
  rw [fetch, withStore_eq c hfound] at h ⊢
  rcases hcheck : c.check key with e | ⟨⟩
  · exact Or.inl rfl
  rw [hcheck] at h
  rcases found with e | found
  · exact Or.inl rfl
  cases found with
  | some bytes => cases h
  | none =>
    rcases hsource : source c.source key with ⟨answer, origin⟩
    dsimp only at h ⊢
    rw [hsource] at h ⊢
    cases answer with
    | error e => exact Or.inl rfl
    | ok bytes =>
      rcases hput : s.put c.store key bytes with ⟨result, store₂⟩
      have hbrings : Brings s source c key bytes := ⟨hcheck, by rw [hfound], by rw [hsource]⟩
      dsimp only at h ⊢
      rw [withStore_eq ⟨c.isReconciled, c.store, origin⟩ hput] at h ⊢
      cases result with
      | error e' => exact Or.inr ⟨bytes, hbrings, by rw [hput]; cases h; rfl, by rw [hput]⟩
      | ok => cases h

namespace Folder

variable {root key : String} {d d' : Disk} {bytes : ByteArray} {time : Nat}

/-- What a fetch that fails leaves in a folder, given what the source answers. -/
inductive Aftermath (root : String) (time : Nat) (key : String)
    (answer : Except Error ByteArray) (d d' : Disk) : Prop where
  /-- Every key holds what it held. -/
  | unchanged : (∀ other, load root other d' = load root other d) →
      Aftermath root time key answer d d'
  /-- The bytes were written and the note was refused. Then the key holds the bytes, although it
      held none before. -/
  | half {bytes : ByteArray} {e : Host.Error} {d₁ : Disk} : answer = .ok bytes →
      Yields (replaceFile (blobPath root key) bytes) d () d₁ →
      resultOf (replaceFile (notePath root key) (Note.bytes ⟨key, bytes.size, time⟩)) d₁ =
        (.error e, d') →
      load root key d = .ok none → load root key d' = .ok (some bytes) →
      (∀ other, Sha256.ofText other ≠ Sha256.ofText key →
        load root other d' = load root other d) →
      Aftermath root time key answer d d'

theorem load_congr {other : String}
    (h : d'.read (blobPath root other) = d.read (blobPath root other)) :
    load root other d' = load root other d := by
  unfold load
  rw [h]

theorem get_eq (root : String) (time : Nat) (d : Disk) (key : String) :
    (store root time).get d key = (load root key d, d) := by
  dsimp only [store]

theorem put_eq (root : String) (time : Nat) (d : Disk) (key : String) (bytes : ByteArray) :
    (store root time).put d key bytes = outcome (resultOf (save root time key bytes) d) := by
  dsimp only [store, resultOf]

/-- The file of the bytes is replaced, or all is as it was. -/
theorem rewritten_blob (hd : d.Grounded) (hroot : d.isDir root = true) (key : String)
    (bytes : ByteArray) :
    Rewritten (blobPath root key) bytes d (resultOf (replaceFile (blobPath root key) bytes) d) := by
  unfold blobPath
  exact rewritten_replaceFile hd hroot (isComponent_of_mem_fileNames (blob_mem key))
    (freshName_ne_of_mem_fileNames (blob_mem key)) bytes

/-- So is the file of the note. -/
theorem rewritten_note (hd : d.Grounded) (hroot : d.isDir root = true) (key : String)
    (bytes : ByteArray) :
    Rewritten (notePath root key) bytes d (resultOf (replaceFile (notePath root key) bytes) d) := by
  unfold notePath
  exact rewritten_replaceFile hd hroot (isComponent_of_mem_fileNames (note_mem key))
    (freshName_ne_of_mem_fileNames (note_mem key)) bytes

theorem placeOf_blobPath_inj {other : String}
    (h : d.placeOf (blobPath root other) = d.placeOf (blobPath root key)) :
    Sha256.ofText other = Sha256.ofText key := by
  rw [blobPath, blobPath, placeOf_file d root (blob_mem other),
    placeOf_file d root (blob_mem key)] at h
  exact (String.append_left_inj _).1 (List.singleton_inj.1 (List.append_cancel_left h))

/-- Storing an entry that is not there can be refused before anything is stored, or only the note is
    refused. -/
theorem aftermath_save {e : Host.Error} (hd : d.Grounded) (hroot : d.isDir root = true)
    (hnone : load root key d = .ok none)
    (h : resultOf (save root time key bytes) d = (.error e, d')) :
    Aftermath root time key (.ok bytes) d d' := by
  have hblob := rewritten_blob hd hroot key bytes
  rw [save, resultOf_bind] at h
  rcases hfirst : resultOf (replaceFile (blobPath root key) bytes) d with ⟨e₁ | ⟨⟩, d₁⟩ <;>
    rw [hfirst] at h hblob
  · cases h
    cases hblob with
    | refused halike => exact .unchanged fun other => load_congr (halike.read _)
  · rw [goOnWith] at h
    cases hblob with
    | done hchanged hread =>
    have hnote := rewritten_note (hchanged.housed.grounded hd) (hchanged.housed.isDir hroot) key
      (Note.bytes ⟨key, bytes.size, time⟩)
    rw [show resultOf (replaceFile (notePath root key) (Note.bytes ⟨key, bytes.size, time⟩)) d₁ =
      (.error e, d') from h] at hnote
    cases hnote with
    | refused halike =>
    refine .half rfl hfirst h hnone ?_ fun other hother => load_congr ?_
    · unfold load
      rw [halike.read, hread]
    · exact (halike.read _).trans (hchanged.read_join hroot
        (isComponent_of_mem_fileNames (blob_mem other))
        fun heq => hother (placeOf_blobPath_inj heq))

end Folder

/-- A fetch that fails leaves storage in memory as it was, and a folder too, unless the bytes were
    written and then the note about them was refused. -/
theorem fetch_failed (source : ω → String → Except Error ByteArray × ω) (key : String) :
    (∀ (c : Cache Memory ω) (e : Error), (c.fetch Memory.store source key).1 = .error e →
      (c.fetch Memory.store source key).2.store = c.store) ∧
    ∀ (root : String) (time : Nat) (c : Cache Disk ω) (e : Error), c.store.Grounded →
      c.store.isDir root = true → (c.fetch (Folder.store root time) source key).1 = .error e →
      Folder.Aftermath root time key (source c.source key).1 c.store
        (c.fetch (Folder.store root time) source key).2.store := by
  refine ⟨fun c e h => ?_, fun root time c e hd hroot h => ?_⟩
  · rcases Cache.failed_cases (fun _ _ => rfl) h with hsame | ⟨bytes, -, hput, -⟩
    · exact hsame
    · cases hput
  · rcases Cache.failed_cases (fun _ _ => rfl) h with
      hsame | ⟨bytes, ⟨-, hnone, hsource⟩, hput, hleft⟩
    · rw [hsame]
      exact .unchanged fun _ => rfl
    · rw [hleft, hsource]
      rw [Folder.get_eq] at hnone
      dsimp only at hnone
      rw [Folder.put_eq] at hput ⊢
      generalize hsave : resultOf (Folder.save root time key bytes) c.store = saved at hput ⊢
      obtain ⟨result, d'⟩ := saved
      cases result with
      | error e' =>
        dsimp only [Folder.outcome]
        exact Folder.aftermath_save hd hroot hnone hsave
      | ok => cases hput

/-- A folder where a directory is in the place of the note about a key, and a source that answers
    with bytes. -/
def jammed : Cache Disk Unit :=
  ⟨true, ⟨.dir [("store", .dir [(Sha256.ofText "k" ++ ".meta.json", .dir [] dirMode)] dirMode)]
    dirMode, []⟩, ()⟩

def ready : Unit → String → Except Error ByteArray × Unit := fun _ _ => (.ok "v".toUTF8, ())

theorem jammed_fails : ∃ e, (jammed.fetch (Folder.store "store" 5) ready "k").1 = .error e := by
  have hfails : (jammed.fetch (Folder.store "store" 5) ready "k").1.isOk = false := by
    decide +kernel
  generalize (jammed.fetch (Folder.store "store" 5) ready "k").1 = result at hfails ⊢
  cases result with
  | ok bytes => cases hfails
  | error e => exact ⟨e, rfl⟩

theorem fetch_failed_jammed : ∃ e,
    (jammed.fetch (Folder.store "store" 5) ready "k").1 = .error e ∧
      Folder.Aftermath "store" 5 "k" (.ok "v".toUTF8) jammed.store
        (jammed.fetch (Folder.store "store" 5) ready "k").2.store := by
  obtain ⟨e, hfails⟩ := jammed_fails
  exact ⟨e, hfails, (fetch_failed ready "k").2 "store" 5 jammed e
    (grounded_of_isDir (by decide +kernel)) (by decide +kernel) hfails⟩

/-- There a fetch fails, and the key that was not stored is. -/
theorem fetch_failed_yet_stored :
    (jammed.contains (Folder.store "store" 5) "k").1 = .ok false ∧
      (∃ e, (jammed.fetch (Folder.store "store" 5) ready "k").1 = .error e) ∧
      ((jammed.fetch (Folder.store "store" 5) ready "k").2.contains
        (Folder.store "store" 5) "k").1 = .ok true :=
  ⟨by decide +kernel, jammed_fails, by decide +kernel⟩

end Asset

end Workbench
