import Mathlib.Data.Set.Function
import Workbench.Asset.Folder
import Workbench.Proofs.Installing
import Workbench.Proofs.JsonText
import Workbench.Proofs.ManifestLines
import Workbench.Proofs.StoreLaws

set_option autoImplicit false

/-! # A folder stores what memory would

A folder keeps each key in two files that are named by its digest. As long as the host does what it
is asked for and the digests of the keys differ, a folder answers as storage in memory does, also
where it is closed and opened again in between. For after every request the folder mirrors the
entries: each has its bytes in the one file and a note about them in the other, both can be read,
and nothing else is in the directory. -/

namespace Workbench.Asset

variable {σ : Type}

/-! ## Storage that is opened again -/

/-- What is asked of storage. -/
inductive Demand where
  | get (key : String)
  | put (key : String) (bytes : ByteArray)
  | remove (key : String)
  | clear
  | reopen

/-- The key that is asked about. -/
def Demand.key? : Demand → Option String
  | .get key => some key
  | .put key _ => some key
  | .remove key => some key
  | .clear => none
  | .reopen => none

/-- What storage answers. -/
inductive Reply where
  | found (bytes : Option ByteArray)
  | done

/-- Storage that is used at times, in seconds since the epoch, and can be opened again. -/
structure Storage (σ : Type) where
  /-- The store at a time. -/
  storeAt : UInt64 → Store σ
  /-- Close the storage and open it again. -/
  reopen : σ → Except Error Unit × σ

namespace Storage

/-- What comes of a request that has no answer but that it was done. -/
def done (result : Except Error Unit × σ) : Except Error Reply × σ :=
  (result.1.map fun _ => .done, result.2)

/-- Do what is asked for at a time. -/
def answer (s : Storage σ) (state : σ) (time : UInt64) : Demand → Except Error Reply × σ
  | .get key =>
    let result := (s.storeAt time).get state key
    (result.1.map .found, result.2)
  | .put key bytes => done ((s.storeAt time).put state key bytes)
  | .remove key => done ((s.storeAt time).remove state key)
  | .clear => done ((s.storeAt time).clear state)
  | .reopen => done (s.reopen state)

/-- Do one thing after the other, each at its time. -/
def answers (s : Storage σ) : List (UInt64 × Demand) → σ → List (Except Error Reply) × σ
  | [], state => ([], state)
  | (time, demand) :: rest, state =>
    let first := s.answer state time demand
    let later := s.answers rest first.2
    (first.1 :: later.1, later.2)

end Storage

/-- Storage in memory stays open. -/
def Memory.storage : Storage Memory := ⟨fun _ => Memory.store, fun m => (.ok (), m)⟩

namespace Folder

open Host (Disk Job Location)
open Host.Disk Host.Job

/-- Storage in a directory, which is made where it is missing when the storage is opened. -/
def storage (root : String) : Storage Disk :=
  ⟨fun time => store root time.toNat, fun d => outcome ((prepare root).run d)⟩

/-! ## What the host is asked for -/

/-- A request to the host is granted, and what it gives meets a condition. -/
def Gives {α : Type} (result : Except Host.Error α) (next : α → Prop) : Prop :=
  ∃ a, result = .ok a ∧ next a

instance {α : Type} (result : Except Host.Error α) (next : α → Prop) [∀ a, Decidable (next a)] :
    Decidable (Gives result next) :=
  match result with
  | .ok a => decidable_of_iff (next a) ⟨fun h => ⟨a, rfl, h⟩, fun ⟨_, ha, h⟩ => by cases ha; exact h⟩
  | .error _ => .isFalse fun ⟨_, ha, _⟩ => by cases ha

/-- A request to the host is refused, since there is nothing at the path. -/
def Lacks {α : Type} (result : Except Host.Error α) : Prop :=
  ∃ e, result = .error e ∧ e.kind = .notFound

instance {α : Type} (result : Except Host.Error α) : Decidable (Lacks result) :=
  match result with
  | .ok _ => .isFalse fun ⟨_, he, _⟩ => by cases he
  | .error e =>
    decidable_of_iff (e.kind = .notFound)
      ⟨fun h => ⟨e, rfl, h⟩, fun ⟨_, he, h⟩ => by cases he; exact h⟩

/-- The requests by which a file is replaced are granted: the directory that holds it can be looked
    into, a new file can be written there, and it can be renamed. -/
def Replaces (text : String) (data : ByteArray) (d : Disk) (next : Disk → Prop) : Prop :=
  Gives (d.list (holderOf text)) fun children =>
    let staged := Location.join (holderOf text) (freshName children)
    Gives (d.alter staged stagedMode fun _ => data) fun d => Gives (d.rename staged text) next

instance (text : String) (data : ByteArray) (d : Disk) (next : Disk → Prop)
    [∀ d, Decidable (next d)] : Decidable (Replaces text data d next) :=
  inferInstanceAs (Decidable (Gives _ _))

/-- The request to remove a file is granted, or there is none. -/
def Removes (text : String) (d : Disk) (next : Disk → Prop) : Prop :=
  Gives (d.unlink text) next ∨ Lacks (d.unlink text) ∧ next d

instance (text : String) (d : Disk) (next : Disk → Prop) [∀ d, Decidable (next d)] :
    Decidable (Removes text d next) :=
  inferInstanceAs (Decidable (_ ∨ _ ∧ _))

/-- The host does what a folder asks it for, request by request: to read a file, to write a staged
    one and to rename it, to remove a file, and to remove a directory with all that is in it and to
    make one. That a file to be read or removed is not there is an answer, and no refusal. Nothing is
    to be granted for a directory to be opened that is there. -/
def Grants (root : String) (d : Disk) (time : UInt64) : Demand → Prop
  | .get key => Gives (d.read (blobPath root key)) (fun _ => True) ∨
      Lacks (d.read (blobPath root key))
  | .put key bytes => Replaces (blobPath root key) bytes d fun d =>
      Replaces (notePath root key)
        (Note.toJson ⟨key, bytes.size, time.toNat⟩).toText.toUTF8 d fun _ => True
  | .remove key => Removes (blobPath root key) d fun d => Removes (notePath root key) d fun _ => True
  | .clear => (resultOf (removeTree root) d).1 = .ok () ∧
      (resultOf (makeDirs root) (resultOf (removeTree root) d).2).1 = .ok ()
  | .reopen => True

/-- Whether that is so can be computed. -/
instance (root : String) (d : Disk) (time : UInt64) :
    (demand : Demand) → Decidable (Grants root d time demand)
  | .get _ => inferInstanceAs (Decidable (_ ∨ _))
  | .put _ _ => inferInstanceAs (Decidable (Replaces _ _ _ _))
  | .remove _ => inferInstanceAs (Decidable (Removes _ _ _))
  | .clear => inferInstanceAs (Decidable (_ ∧ _))
  | .reopen => .isTrue trivial

/-- The host does so for all that is asked, one thing after the other. -/
def GrantsAll (root : String) : List (UInt64 × Demand) → Disk → Prop
  | [], _ => True
  | (time, demand) :: rest, d =>
    Grants root d time demand ∧ GrantsAll root rest ((storage root).answer d time demand).2

instance decidableGrantsAll (root : String) : (demands : List (UInt64 × Demand)) → (d : Disk) →
    Decidable (GrantsAll root demands d)
  | [], _ => .isTrue trivial
  | (time, demand) :: rest, d =>
    have := decidableGrantsAll root rest ((storage root).answer d time demand).2
    inferInstanceAs (Decidable (Grants root d time demand ∧ _))

/-- The names of the two files of a key. -/
def fileNames (key : String) : List String :=
  [Sha256.ofText key ++ ".bin", Sha256.ofText key ++ ".meta.json"]

/-- The bytes of a note. -/
def Note.bytes (n : Note) : ByteArray := (Note.toJson n).toText.toUTF8

/-- What a folder shows of the entries that are stored. -/
structure Mirrors (root : String) (keys : Set String) (d : Disk) (m : Memory) : Prop where
  /-- The bytes of an entry are in its file. -/
  blob : ∀ key bytes, m.lookup key = some bytes → d.read (blobPath root key) = .ok bytes
  /-- There is a note about a key exactly if it is stored, and it tells the key and the size. -/
  note : ∀ key ∈ keys, (note? root key d).map (fun n => (n.key, n.size)) =
    (m.lookup key).map fun bytes => (key, bytes.size)
  /-- The directory holds the files of the entries and nothing else. -/
  listed : ∃ children, d.list root = .ok children ∧ ∀ name,
    name ∈ children.map Prod.fst ↔ ∃ key, (m.lookup key).isSome ∧ name ∈ fileNames key

/-! ## Names -/

theorem digitChar_plain : ∀ n < 16, Nat.digitChar n ∉ ['.', '/', '\x00'] := by decide

/-- A digest is written in digits. -/
theorem hex_plain (bytes : List UInt8) :
    ∀ c ∈ (Sha256.hex bytes).toList, c ∉ ['.', '/', '\x00'] := by
  rw [Sha256.hex, String.toList_ofList]
  intro c hc
  obtain ⟨b, -, hb⟩ := List.mem_flatMap.1 hc
  have hlow : b.toNat < 256 := b.toNat_lt
  rcases List.mem_cons.1 hb with rfl | hb
  · exact digitChar_plain _ (by omega)
  · obtain rfl := List.mem_singleton.1 hb
    exact digitChar_plain _ (by omega)

theorem isComponent_of_mem_fileNames {key name : String} (h : name ∈ fileNames key) :
    Path.isComponent name = true := by
  have hplain : ∀ c ∈ (Sha256.ofText key).toList, c ∉ ['.', '/', '\x00'] := hex_plain _
  have hname : ∀ ending : String, 2 < ending.length → '/' ∉ ending.toList →
      '\x00' ∉ ending.toList → Path.isComponent (Sha256.ofText key ++ ending) = true := by
    intro ending hlong hslash hnul
    have hfree : ∀ c ∈ ['.', '/', '\x00'], c ∉ ending.toList →
        c ∉ (Sha256.ofText key ++ ending).toList := by
      intro c hc hending hmem
      rw [String.toList_append] at hmem
      rcases List.mem_append.1 hmem with hmem | hmem
      · exact hplain c hmem hc
      · exact hending hmem
    refine Path.isComponent_of_length ?_ (hfree '/' (by decide) hslash)
      (hfree '\x00' (by decide) hnul)
    rw [String.length_append]
    omega
  rcases List.mem_cons.1 h with rfl | h
  · exact hname ".bin" (by decide) (by decide) (by decide)
  · obtain rfl := List.mem_singleton.1 h
    exact hname ".meta.json" (by decide) (by decide) (by decide)

/-- No file of a key has the name of a staged one. -/
theorem freshName_ne_of_mem_fileNames {key name : String} (h : name ∈ fileNames key)
    (children : List (String × Tree Nat)) : freshName children ≠ name := by
  have hplain : ∀ c ∈ (Sha256.ofText key).toList, c ∉ ['.', '/', '\x00'] := hex_plain _
  obtain ⟨n, hn⟩ : ∃ n : Nat, freshName children = ".staged" ++ toString n := ⟨_, rfl⟩
  have hstart : ∀ ending : String, ending.toList.take 2 ≠ ['.', 's'] →
      ".staged" ++ toString n ≠ Sha256.ofText key ++ ending := by
    intro ending hending heq
    have hchars := congrArg String.toList heq
    rw [String.toList_append, String.toList_append] at hchars
    cases hdigest : (Sha256.ofText key).toList with
    | nil =>
      rw [hdigest, List.nil_append] at hchars
      rw [← hchars] at hending
      exact hending rfl
    | cons c rest =>
      rw [hdigest, List.cons_append] at hchars
      refine hplain c (hdigest ▸ List.mem_cons_self) ?_
      rw [← (List.cons.inj hchars).1]
      exact List.mem_cons_self
  rw [hn]
  rcases List.mem_cons.1 h with rfl | h
  · exact hstart ".bin" (by decide)
  · obtain rfl := List.mem_singleton.1 h
    exact hstart ".meta.json" (by decide)

theorem blobName_ne_noteName (a b : String) : a ++ ".bin" ≠ b ++ ".meta.json" := by
  intro heq
  have hchars := congrArg (fun text => text.toList.reverse.take 2) heq
  simp at hchars

/-- Keys whose digests differ have files of different names. -/
theorem ofText_eq_of_mem_fileNames {a b name : String} (ha : name ∈ fileNames a)
    (hb : name ∈ fileNames b) : Sha256.ofText a = Sha256.ofText b := by
  simp only [fileNames, List.mem_cons, List.not_mem_nil, or_false] at ha hb
  rcases ha with rfl | rfl
  · rcases hb with hb | hb
    · exact (String.append_left_inj _).1 hb
    · exact absurd hb (blobName_ne_noteName _ _)
  · rcases hb with hb | hb
    · exact absurd hb.symm (blobName_ne_noteName _ _)
    · exact (String.append_left_inj _).1 hb

/-! ## Notes -/

/-- A note is read back from its bytes. -/
theorem note?_of_read {root key : String} {d : Disk} {n : Note} (hsize : n.size < Nat.pow 2 64)
    (htime : n.storedAt < Nat.pow 2 64) (h : d.read (notePath root key) = .ok n.bytes) :
    note? root key d = some n := by
  have htext : Text.ofUtf8? n.bytes = some (Note.toJson n).toText :=
    Text.ofUtf8?_eq_some_iff.2 rfl
  have hjson : JsonValue.ofText? (Note.toJson n).toText = some (Note.toJson n) := by
    refine JsonValue.ofText?_toText fun entry hentry => ?_
    simp only [List.mem_cons, List.not_mem_nil, or_false] at hentry
    rcases hentry with rfl | rfl | rfl
    · exact .string n.key
    · exact .number n.size
    · exact .number n.storedAt
  have hnote : Note.ofJson? (Note.toJson n) = some n := by
    have hfields : JsonValue.wordOf? 64 (.number n.size.repr) = some n.size ∧
        JsonValue.wordOf? 64 (.number n.storedAt.repr) = some n.storedAt :=
      ⟨Text.word?_toString hsize, Text.word?_toString htime⟩
    simp [Note.ofJson?, Note.toJson, JsonValue.field?, JsonValue.textOf?, hfields]
  simp [note?, h, Except.toOption, htext, hjson, hnote]

theorem note?_of_not_read {root key : String} {d : Disk}
    (h : ∀ bytes, d.read (notePath root key) ≠ .ok bytes) : note? root key d = none := by
  rw [note?]
  cases hread : d.read (notePath root key) with
  | error e => rfl
  | ok bytes => exact absurd hread (h bytes)

/-! ## What a request touches -/

/-- The place of a file in the directory. -/
theorem placeOf_file (d : Disk) (root : String) {key name : String} (h : name ∈ fileNames key) :
    d.placeOf (Location.join root name) = d.placeOf root ++ [name] :=
  Package.placeOf_join_name d root (isComponent_of_mem_fileNames h)

theorem blob_mem (key : String) : Sha256.ofText key ++ ".bin" ∈ fileNames key :=
  List.mem_cons_self

theorem note_mem (key : String) : Sha256.ofText key ++ ".meta.json" ∈ fileNames key :=
  List.mem_cons_of_mem _ List.mem_cons_self

/-- Nothing has changed in a directory but the files of a key. -/
structure Touched (root key : String) (d d' : Disk) : Prop where
  housed : Housed d d'
  read : ∀ name bytes, Path.isComponent name = true → name ∉ fileNames key →
    d.read (Location.join root name) = .ok bytes → d'.read (Location.join root name) = .ok bytes
  shapes : ∀ name, name ∉ fileNames key →
    d'.shapeAt (d.placeOf root ++ [name]) = d.shapeAt (d.placeOf root ++ [name])

variable {root key name : String} {keys : Set String} {d d' d₁ : Disk} {m : Memory}
  {bytes : ByteArray} {time : UInt64}

theorem Touched.trans (h : Touched root key d d₁) (h' : Touched root key d₁ d') :
    Touched root key d d' where
  housed := h.housed.trans h'.housed
  read name bytes hname hother hread :=
    h'.read name bytes hname hother (h.read name bytes hname hother hread)
  shapes name hother := by
    rw [← h.shapes name hother, ← h.housed.placeOf, h'.shapes name hother]

theorem Touched.of_changed {shape : Option Shape} (hname : name ∈ fileNames key)
    (h : Changed (d.placeOf (Location.join root name)) shape d d') : Touched root key d d' := by
  rw [placeOf_file d root hname] at h
  refine ⟨h.housed, fun other bytes hother hne hread => h.read hread ?_, fun other hne => ?_⟩
  · rw [Package.placeOf_join_name d root hother]
    intro heq
    exact hne (List.singleton_inj.1 (List.append_cancel_left heq) ▸ hname)
  · rw [h.shapes, if_neg]
    intro heq
    exact hne (List.singleton_inj.1 (List.append_cancel_left heq) ▸ hname)

/-! ## Entries and their files -/

/-- What is true of a directory and its disk while it stores entries. -/
structure Held (root : String) (keys : Set String) (d : Disk) (m : Memory) : Prop where
  grounded : d.Grounded
  there : d.isDir root = true
  known : ∀ key, (m.lookup key).isSome → key ∈ keys
  blob : ∀ key bytes, m.lookup key = some bytes → d.read (blobPath root key) = .ok bytes
  noted : ∀ key bytes, m.lookup key = some bytes → bytes.size < Nat.pow 2 64 ∧
    ∃ time : UInt64, d.read (notePath root key) = .ok (Note.bytes ⟨key, bytes.size, time.toNat⟩)
  only : ∀ name, (d.shapeAt (d.placeOf root ++ [name])).isSome →
    ∃ key, (m.lookup key).isSome ∧ name ∈ fileNames key

namespace Held

/-- No file of a stored key is one of another key. -/
theorem apart (h : Held root keys d m) (hinj : Set.InjOn Sha256.ofText keys) (hkey : key ∈ keys)
    {other : String} (hother : (m.lookup other).isSome) (hne : other ≠ key)
    (hname : name ∈ fileNames other) : name ∉ fileNames key :=
  fun hmem => hne (hinj (h.known other hother) hkey (ofText_eq_of_mem_fileNames hname hmem))

/-- Of a key that is not stored nothing is there. -/
theorem absent (h : Held root keys d m) (hinj : Set.InjOn Sha256.ofText keys) (hkey : key ∈ keys)
    (hnone : m.lookup key = none) (hname : name ∈ fileNames key) :
    d.shapeAt (d.placeOf (Location.join root name)) = none := by
  rw [placeOf_file d root hname]
  by_contra hthere
  obtain ⟨other, hother, hmem⟩ := h.only name (Option.isSome_iff_ne_none.2 hthere)
  refine h.apart hinj hkey hother ?_ hmem hname
  rintro rfl
  rw [hnone] at hother
  cases hother

/-- Every file of a stored key can be read. -/
theorem readable (h : Held root keys d m) (hsome : (m.lookup key).isSome)
    (hname : name ∈ fileNames key) : ∃ bytes, d.read (Location.join root name) = .ok bytes := by
  obtain ⟨bytes, hbytes⟩ := Option.isSome_iff_exists.1 hsome
  simp only [fileNames, List.mem_cons, List.not_mem_nil, or_false] at hname
  rcases hname with rfl | rfl
  · exact ⟨bytes, h.blob key bytes hbytes⟩
  · obtain ⟨-, time, hread⟩ := h.noted key bytes hbytes
    exact ⟨_, hread⟩

/-- The directory holds no directories. -/
theorem flat (h : Held root keys d m) (name : String) :
    d.shapeAt (d.placeOf root ++ [name]) ≠ some .dir := by
  intro hdir
  obtain ⟨key, hkey, hname⟩ := h.only name (by rw [hdir]; rfl)
  obtain ⟨bytes, hread⟩ := h.readable hkey hname
  have hfile := shapeAt_of_read hread
  rw [placeOf_file d root hname, hdir] at hfile
  cases hfile

/-- A directory in which nothing is stores nothing. -/
theorem fresh (hd : d.Grounded) (hroot : d.isDir root = true)
    (hempty : ∀ name, d.shapeAt (d.placeOf root ++ [name]) = none) : Held root keys d [] where
  grounded := hd
  there := hroot
  known key hkey := by cases hkey
  blob key bytes hkey := by cases hkey
  noted key bytes hkey := by cases hkey
  only name hname := by
    rw [hempty name] at hname
    cases hname

/-- What is stored under other keys stays. -/
theorem blob_touched (h : Held root keys d m) (hinj : Set.InjOn Sha256.ofText keys)
    (hkey : key ∈ keys) (ht : Touched root key d d') {other : String} (hne : other ≠ key)
    (hother : m.lookup other = some bytes) : d'.read (blobPath root other) = .ok bytes :=
  ht.read _ bytes (isComponent_of_mem_fileNames (blob_mem other))
    (h.apart hinj hkey (by rw [hother]; rfl) hne (blob_mem other)) (h.blob other bytes hother)

theorem noted_touched (h : Held root keys d m) (hinj : Set.InjOn Sha256.ofText keys)
    (hkey : key ∈ keys) (ht : Touched root key d d') {other : String} (hne : other ≠ key)
    (hother : m.lookup other = some bytes) : bytes.size < Nat.pow 2 64 ∧
      ∃ time : UInt64,
        d'.read (notePath root other) = .ok (Note.bytes ⟨other, bytes.size, time.toNat⟩) := by
  obtain ⟨hsize, time, hread⟩ := h.noted other bytes hother
  exact ⟨hsize, time, ht.read _ _ (isComponent_of_mem_fileNames (note_mem other))
    (h.apart hinj hkey (by rw [hother]; rfl) hne (note_mem other)) hread⟩

/-- A key whose files were written is stored. -/
theorem put (h : Held root keys d m) (hinj : Set.InjOn Sha256.ofText keys) (hkey : key ∈ keys)
    (hsize : bytes.size < Nat.pow 2 64) (ht : Touched root key d d')
    (hblob : d'.read (blobPath root key) = .ok bytes)
    (hnote : d'.read (notePath root key) = .ok (Note.bytes ⟨key, bytes.size, time.toNat⟩)) :
    Held root keys d' (m.drop key ++ [(key, bytes)]) where
  grounded := ht.housed.grounded h.grounded
  there := ht.housed.isDir h.there
  known other hother := by
    rw [Memory.lookup_put] at hother
    split_ifs at hother with hsame
    · exact hsame ▸ hkey
    · exact h.known other hother
  blob other bytes' hother := by
    rw [Memory.lookup_put] at hother
    split_ifs at hother with hsame
    · cases hother
      exact hsame ▸ hblob
    · exact h.blob_touched hinj hkey ht hsame hother
  noted other bytes' hother := by
    rw [Memory.lookup_put] at hother
    split_ifs at hother with hsame
    · cases hother
      exact ⟨hsize, time, hsame ▸ hnote⟩
    · exact h.noted_touched hinj hkey ht hsame hother
  only name hname := by
    by_cases hmem : name ∈ fileNames key
    · exact ⟨key, by rw [Memory.lookup_put, if_pos rfl]; rfl, hmem⟩
    · rw [ht.housed.placeOf, ht.shapes name hmem] at hname
      obtain ⟨other, hother, hname'⟩ := h.only name hname
      refine ⟨other, ?_, hname'⟩
      rw [Memory.lookup_put, if_neg]
      · exact hother
      · rintro rfl
        exact hmem hname'

/-- A key whose files are gone is not stored. -/
theorem remove (h : Held root keys d m) (hinj : Set.InjOn Sha256.ofText keys) (hkey : key ∈ keys)
    (ht : Touched root key d d')
    (hgone : ∀ name ∈ fileNames key, d'.shapeAt (d.placeOf root ++ [name]) = none) :
    Held root keys d' (m.drop key) where
  grounded := ht.housed.grounded h.grounded
  there := ht.housed.isDir h.there
  known other hother := by
    rw [Memory.lookup_drop] at hother
    split_ifs at hother with hsame
    · cases hother
    · exact h.known other hother
  blob other bytes' hother := by
    rw [Memory.lookup_drop] at hother
    split_ifs at hother with hsame
    exact h.blob_touched hinj hkey ht hsame hother
  noted other bytes' hother := by
    rw [Memory.lookup_drop] at hother
    split_ifs at hother with hsame
    exact h.noted_touched hinj hkey ht hsame hother
  only name hname := by
    rw [ht.housed.placeOf] at hname
    have hmem : name ∉ fileNames key := by
      intro hmem
      rw [hgone name hmem] at hname
      cases hname
    rw [ht.shapes name hmem] at hname
    obtain ⟨other, hother, hname'⟩ := h.only name hname
    refine ⟨other, ?_, hname'⟩
    rw [Memory.lookup_drop, if_neg]
    · exact hother
    · rintro rfl
      exact hmem hname'

end Held

/-! ## Requests that are granted -/

theorem answer_get (root key : String) (d : Disk) (time : UInt64) :
    (storage root).answer d time (.get key) = ((load root key d).map .found, d) := by
  unfold Storage.answer
  dsimp only [storage, store]

theorem answer_put (root key : String) (d : Disk) (time : UInt64) (bytes : ByteArray) :
    (storage root).answer d time (.put key bytes) =
      Storage.done (outcome (resultOf (save root time.toNat key bytes) d)) := by
  unfold Storage.answer
  dsimp only [storage, store, resultOf]

theorem answer_remove (root key : String) (d : Disk) (time : UInt64) :
    (storage root).answer d time (.remove key) =
      Storage.done (outcome (resultOf (remove root key) d)) := by
  unfold Storage.answer
  dsimp only [storage, store, resultOf]

theorem answer_clear (root : String) (d : Disk) (time : UInt64) :
    (storage root).answer d time .clear = Storage.done (outcome (resultOf (clear root) d)) := by
  unfold Storage.answer
  dsimp only [storage, store, resultOf]

theorem answer_reopen (root : String) (d : Disk) (time : UInt64) :
    (storage root).answer d time .reopen = Storage.done (outcome (resultOf (prepare root) d)) := by
  unfold Storage.answer
  dsimp only [storage, store, resultOf]

/-- A job that yields is answered by that it was done. -/
theorem done_of_yields {job : Job Unit} {d d' : Disk} (h : Yields job d () d') :
    Storage.done (outcome (resultOf job d)) = (.ok .done, d') := by
  rw [show resultOf job d = (.ok (), d') from h]
  rfl

/-- A file in a directory that is there is replaced where the requests for it are granted: the
    directory need not be made, and the staged file is renamed. -/
theorem yields_replaceFile (hd : d.Grounded) {text : String} {next : Disk → Prop}
    (h : Replaces text bytes d next) :
    ∃ d', Yields (replaceFile text bytes) d () d' ∧ next d' := by
  obtain ⟨children, hlist, d₁, halter, d₂, hrename, hnext⟩ := h
  have hnul : text.toList.contains '\x00' ≠ true := by
    obtain ⟨⟨source, _⟩, -, hrename⟩ := bind_eq_ok_iff.1 hrename
    obtain ⟨⟨target, _⟩, hnamed, -⟩ := bind_eq_ok_iff.1 hrename
    obtain ⟨hwalk, -⟩ := named_eq_ok hnamed
    rw [(walk_eq_ok_iff.1 hwalk).1.1]
    exact Bool.false_ne_true
  refine ⟨d₂, ?_, hnext⟩
  unfold replaceFile
  refine yields_bind_iff.2 ⟨(), d, makeDirs_of_isDir hd (isDir_of_list hlist), ?_⟩
  refine yields_bind_iff.2 ⟨children, d, yields_ask_iff.2 ⟨hlist, rfl⟩, ?_⟩
  refine yields_bind_iff.2 ⟨(), d₁, yields_change halter, ?_⟩
  rw [if_neg hnul]
  exact yields_tryCatch_iff.2 (Or.inl (yields_change hrename))

/-- A file is removed where the request for it is granted or there is none. -/
theorem yields_allow_unlink {text : String} {next : Disk → Prop} (h : Removes text d next) :
    ∃ d', Yields (allow .notFound (change (·.unlink text))) d () d' ∧ next d' := by
  rcases h with ⟨d', hunlink, hnext⟩ | ⟨⟨e, hunlink, hkind⟩, hnext⟩
  · exact ⟨d', yields_tryCatch_iff.2 (Or.inl (yields_change hunlink)), hnext⟩
  · refine ⟨d, yields_tryCatch_iff.2 (Or.inr ⟨e, d, fails_change hunlink, ?_⟩), hnext⟩
    rw [if_pos hkind]
    exact yields_pure_iff.2 ⟨rfl, rfl⟩

/-- A file of a key that was replaced is read with its new bytes, and nothing else has changed. -/
theorem changed_replaceFile (hd : d.Grounded) (hroot : d.isDir root = true)
    (hname : name ∈ fileNames key)
    (h : Yields (replaceFile (Location.join root name) bytes) d () d') :
    Changed (d.placeOf (Location.join root name)) (some (.file bytes)) d d' ∧
      d'.read (Location.join root name) = .ok bytes := by
  have hwritten := rewritten_replaceFile hd hroot (isComponent_of_mem_fileNames hname)
    (freshName_ne_of_mem_fileNames hname) bytes
  have hresult : resultOf (replaceFile (Location.join root name) bytes) d = (.ok (), d') := h
  rw [hresult] at hwritten
  cases hwritten with
  | done hchanged hread => exact ⟨hchanged, hread⟩

/-- The note is another file than the bytes. -/
theorem placeOf_blobPath_ne (d : Disk) (root key : String) :
    d.placeOf (blobPath root key) ≠ d.placeOf (notePath root key) := by
  rw [blobPath, notePath, placeOf_file d root (blob_mem key), placeOf_file d root (note_mem key)]
  intro heq
  exact blobName_ne_noteName _ _ (List.singleton_inj.1 (List.append_cancel_left heq))

/-- Storing writes the two files of the key, and nothing else has changed. -/
theorem touched_save (hd : d.Grounded) (hroot : d.isDir root = true)
    (h : Yields (save root time.toNat key bytes) d () d') : Touched root key d d' ∧
      d'.read (blobPath root key) = .ok bytes ∧
      d'.read (notePath root key) = .ok (Note.bytes ⟨key, bytes.size, time.toNat⟩) := by
  obtain ⟨⟨⟩, d₁, hblob, hnote⟩ := yields_bind_iff.1 h
  obtain ⟨hchanged, hread⟩ := changed_replaceFile hd hroot (blob_mem key) hblob
  have htouched := Touched.of_changed (blob_mem key) hchanged
  obtain ⟨hchanged', hread'⟩ := changed_replaceFile (htouched.housed.grounded hd)
    (htouched.housed.isDir hroot) (note_mem key) hnote
  exact ⟨htouched.trans (.of_changed (note_mem key) hchanged'),
    hchanged'.read hread (placeOf_blobPath_ne d₁ root key), hread'⟩

/-- A file that is there or not is not there after it was removed. -/
theorem changed_allow_unlink (hd : d.Grounded) {text : String}
    (hfile : d.shapeAt (d.placeOf text) = none ∨ ∃ bytes, d.read text = .ok bytes)
    (h : Yields (allow .notFound (change (·.unlink text))) d () d') :
    Changed (d.placeOf text) none d d' := by
  rcases yields_tryCatch_iff.1 h with hgranted | ⟨e, d₁, hrefused, h⟩
  · exact changed_unlink hd (request_of_change hgranted)
  · rcases resultOf_change (·.unlink text) d with ⟨d₂, -, hresult⟩ | ⟨e', hunlink, hresult⟩
    · cases hresult.symm.trans hrefused
    · cases hresult.symm.trans hrefused
      split at h
      · obtain ⟨-, rfl⟩ := yields_pure_iff.1 h
        rcases hfile with hnone | ⟨bytes, hread⟩
        · refine ⟨rfl, by rw [hnone]; nofun, fun other => ?_⟩
          split_ifs with hother
          · rw [hother, hnone]
          · rfl
        · obtain ⟨d₂, hgranted⟩ := unlink_of_read hd hread
          cases hgranted.symm.trans hunlink
      · exact absurd h not_yields_throw

namespace Held

variable {demand : Demand}

/-- The files of a key are there, or they are not. -/
theorem there_or_not (h : Held root keys d m) (hinj : Set.InjOn Sha256.ofText keys)
    (hkey : key ∈ keys) (hname : name ∈ fileNames key) :
    d.shapeAt (d.placeOf (Location.join root name)) = none ∨
      ∃ bytes, d.read (Location.join root name) = .ok bytes := by
  cases hlookup : m.lookup key with
  | none => exact Or.inl (h.absent hinj hkey hlookup hname)
  | some bytes => exact Or.inr (h.readable (by rw [hlookup]; rfl) hname)

theorem removed (h : Held root keys d m) (hinj : Set.InjOn Sha256.ofText keys) (hkey : key ∈ keys)
    (hremove : Yields (Folder.remove root key) d () d') : Held root keys d' (m.drop key) := by
  obtain ⟨⟨⟩, d₁, hblob, hnote⟩ := yields_bind_iff.1 hremove
  have hgone : Changed (d.placeOf (blobPath root key)) none d d₁ :=
    changed_allow_unlink h.grounded (h.there_or_not hinj hkey (blob_mem key)) hblob
  have hne := placeOf_blobPath_ne d root key
  have hnoted : d₁.shapeAt (d₁.placeOf (notePath root key)) = none ∨
      ∃ bytes, d₁.read (notePath root key) = .ok bytes := by
    rw [hgone.housed.placeOf, hgone.shapes, if_neg hne.symm]
    exact (h.there_or_not hinj hkey (note_mem key)).imp_right fun ⟨bytes, hread⟩ =>
      ⟨bytes, hgone.read hread hne.symm⟩
  have hgone' : Changed (d₁.placeOf (notePath root key)) none d₁ d' :=
    changed_allow_unlink (hgone.housed.grounded h.grounded) hnoted hnote
  refine h.remove hinj hkey
    ((Touched.of_changed (blob_mem key) hgone).trans (.of_changed (note_mem key) hgone')) ?_
  rw [hgone.housed.placeOf] at hgone'
  intro name hname
  rw [← placeOf_file d root hname]
  simp only [fileNames, List.mem_cons, List.not_mem_nil, or_false] at hname
  rcases hname with rfl | rfl
  · show d'.shapeAt (d.placeOf (blobPath root key)) = none
    rw [hgone'.shapes, if_neg hne, hgone.shapes, if_pos rfl]
  · show d'.shapeAt (d.placeOf (notePath root key)) = none
    rw [hgone'.shapes, if_pos rfl]

/-- Looking for a key finds what is stored under it. -/
theorem load_eq (h : Held root keys d m) (hinj : Set.InjOn Sha256.ofText keys) (hkey : key ∈ keys)
    (hgranted : Grants root d time (.get key)) : load root key d = .ok (m.lookup key) := by
  unfold load
  cases hlookup : m.lookup key with
  | some bytes => rw [h.blob key bytes hlookup]
  | none =>
    rcases hgranted with ⟨bytes, hread, -⟩ | ⟨e, hread, hkind⟩
    · have hnone : d.shapeAt (d.placeOf (blobPath root key)) = none :=
        h.absent hinj hkey hlookup (blob_mem key)
      rw [shapeAt_of_read hread] at hnone
      cases hnone
    · rw [hread]
      dsimp only
      rw [if_pos hkind]

/-- Storing yields where the requests for it are granted. -/
theorem saves (h : Held root keys d m) (hgranted : Grants root d time (.put key bytes)) :
    ∃ d', Yields (save root time.toNat key bytes) d () d' := by
  obtain ⟨d₁, hblob, hnoted⟩ := yields_replaceFile h.grounded hgranted
  obtain ⟨hchanged, -⟩ := changed_replaceFile h.grounded h.there (blob_mem key) hblob
  obtain ⟨d', hnote, -⟩ := yields_replaceFile (hchanged.housed.grounded h.grounded) hnoted
  exact ⟨d', yields_bind_iff.2 ⟨(), d₁, hblob, hnote⟩⟩

theorem cleared (h : Held root keys d m) (hgranted : Grants root d time .clear) :
    ∃ d', Yields (clear root) d () d' ∧ Held root keys d' [] := by
  obtain ⟨hremoved, hmade⟩ := hgranted
  generalize hd₁ : (resultOf (removeTree root) d).2 = d₁ at hmade
  have hremoved : Yields (removeTree root) d () d₁ := Prod.ext hremoved hd₁
  have hmade : Yields (makeDirs root) d₁ () (resultOf (makeDirs root) d₁).2 := Prod.ext hmade rfl
  obtain ⟨hgrounded, hthere, hcwd, hempty⟩ := emptied h.grounded h.there h.flat hremoved hmade
  refine ⟨_, yields_bind_iff.2 ⟨(), d₁, yields_tryCatch_iff.2 (Or.inl hremoved), hmade⟩,
    .fresh hgrounded hthere ?_⟩
  rwa [placeOf, hcwd, ← placeOf]

/-- A request that is granted is answered as memory answers it, and the folder holds what memory
    then does. -/
theorem answer (h : Held root keys d m) (hinj : Set.InjOn Sha256.ofText keys) {demand : Demand}
    (hkeys : ∀ key ∈ demand.key?, key ∈ keys)
    (hsizes : ∀ key bytes, demand = .put key bytes → bytes.size < Nat.pow 2 64)
    (hgranted : Grants root d time demand) :
    ((storage root).answer d time demand).1 = (Memory.storage.answer m time demand).1 ∧
      Held root keys ((storage root).answer d time demand).2
        (Memory.storage.answer m time demand).2 := by
  cases demand with
  | get key =>
    rw [answer_get, h.load_eq hinj (hkeys key rfl) hgranted]
    exact ⟨rfl, h⟩
  | put key bytes =>
    obtain ⟨d', hsave⟩ := h.saves hgranted
    obtain ⟨htouched, hblob, hnote⟩ := touched_save h.grounded h.there hsave
    rw [answer_put, done_of_yields hsave]
    exact ⟨rfl, h.put hinj (hkeys key rfl) (hsizes key bytes rfl) htouched hblob hnote⟩
  | remove key =>
    obtain ⟨d₁, hblob, hnoted⟩ := yields_allow_unlink hgranted
    obtain ⟨d', hnote, -⟩ := yields_allow_unlink hnoted
    have hremove : Yields (Folder.remove root key) d () d' :=
      yields_bind_iff.2 ⟨(), d₁, hblob, hnote⟩
    rw [answer_remove, done_of_yields hremove]
    exact ⟨rfl, h.removed hinj (hkeys key rfl) hremove⟩
  | clear =>
    obtain ⟨d', hclear, hheld⟩ := h.cleared hgranted
    rw [answer_clear, done_of_yields hclear]
    exact ⟨rfl, hheld⟩
  | reopen =>
    -- opening a directory that is there changes nothing
    have hprepare : Yields (prepare root) d () d := makeDirs_of_isDir h.grounded h.there
    rw [answer_reopen, done_of_yields hprepare]
    exact ⟨rfl, h⟩

/-- So it is with any number of requests. -/
theorem answers (h : Held root keys d m) (hinj : Set.InjOn Sha256.ofText keys)
    {demands : List (UInt64 × Demand)}
    (hkeys : ∀ demand ∈ demands, ∀ key ∈ demand.2.key?, key ∈ keys)
    (hsizes : ∀ demand ∈ demands, ∀ key bytes, demand.2 = .put key bytes →
      bytes.size < Nat.pow 2 64)
    (hgranted : GrantsAll root demands d) :
    ((storage root).answers demands d).1 = (Memory.storage.answers demands m).1 ∧
      Held root keys ((storage root).answers demands d).2
        (Memory.storage.answers demands m).2 := by
  induction demands generalizing d m with
  | nil => exact ⟨rfl, h⟩
  | cons demand demands ih =>
    obtain ⟨time, demand⟩ := demand
    obtain ⟨hfirst, hrest⟩ := hgranted
    obtain ⟨hreply, hheld⟩ := h.answer hinj (hkeys (time, demand) List.mem_cons_self)
      (hsizes (time, demand) List.mem_cons_self) hfirst
    obtain ⟨hreplies, hheld'⟩ := ih hheld (fun e he => hkeys e (List.mem_cons_of_mem _ he))
      (fun e he => hsizes e (List.mem_cons_of_mem _ he)) hrest
    exact ⟨congrArg₂ List.cons hreply hreplies, hheld'⟩

/-- A folder that holds entries mirrors them. -/
theorem mirrors (h : Held root keys d m) (hinj : Set.InjOn Sha256.ofText keys) :
    Mirrors root keys d m := by
  refine ⟨h.blob, fun key hkey => ?_, ?_⟩
  · cases hlookup : m.lookup key with
    | some bytes =>
      obtain ⟨hsize, time, hread⟩ := h.noted key bytes hlookup
      have htime : time.toNat < Nat.pow 2 64 := time.toNat_lt
      rw [note?_of_read (n := ⟨key, bytes.size, time.toNat⟩) hsize htime hread]
      rfl
    | none =>
      rw [note?_of_not_read]
      · rfl
      · intro bytes hread
        have hnone : d.shapeAt (d.placeOf (notePath root key)) = none :=
          h.absent hinj hkey hlookup (note_mem key)
        rw [shapeAt_of_read hread] at hnone
        cases hnone
  · obtain ⟨children, hlist⟩ := exists_list h.there
    refine ⟨children, hlist, fun name => ?_⟩
    rw [mem_names_iff hlist]
    refine ⟨h.only name, fun ⟨key, hkey, hname⟩ => ?_⟩
    obtain ⟨bytes, hread⟩ := h.readable hkey hname
    rw [← placeOf_file d root hname, shapeAt_of_read hread]
    rfl

end Held

/-- A folder that is opened in an empty directory answers as memory does, as long as the host does
    what it is asked for and the digests of the keys differ, and mirrors what is stored. -/
theorem storage_refines_memory (hinj : Set.InjOn Sha256.ofText keys) (hd : d.Grounded)
    (hempty : d.list root = .ok []) {demands : List (UInt64 × Demand)}
    (hkeys : ∀ demand ∈ demands, ∀ key ∈ demand.2.key?, key ∈ keys)
    (hsizes : ∀ demand ∈ demands, ∀ key bytes, demand.2 = .put key bytes →
      bytes.size < Nat.pow 2 64)
    (hgranted : GrantsAll root demands d) :
    ((storage root).answers demands d).1 = (Memory.storage.answers demands []).1 ∧
      Mirrors root keys ((storage root).answers demands d).2
        (Memory.storage.answers demands []).2 := by
  have hheld : Held root keys d [] := by
    refine .fresh hd (isDir_of_list hempty) fun name => ?_
    rw [shapeAt_child hempty]
    rfl
  obtain ⟨hreplies, hheld'⟩ := hheld.answers hinj hkeys hsizes hgranted
  exact ⟨hreplies, hheld'.mirrors hinj⟩

/-- A disk with a directory in which nothing is. -/
def vacant : Disk := ⟨.dir [("store", .dir [] dirMode)] dirMode, []⟩

/-- Requests about a key that is empty and one that looks like a path; one is removed while it is
    stored and once more when it is not. -/
def requests : List (UInt64 × Demand) :=
  [(5, .put "a/../b" "ab".toUTF8), (6, .reopen), (6, .get "a/../b"), (7, .remove "a/../b"),
    (7, .remove "a/../b"), (8, .get "a/../b"), (8, .put "" "c".toUTF8), (8, .get ""), (9, .clear)]

theorem storage_refines_memory_requests :
    ((storage "store").answers requests vacant).1 = (Memory.storage.answers requests []).1 ∧
      Mirrors "store" {"", "a/../b"} ((storage "store").answers requests vacant).2
        (Memory.storage.answers requests []).2 := by
  have hdigests : Sha256.ofText "" ≠ Sha256.ofText "a/../b" := by decide +kernel
  refine storage_refines_memory ?_ (grounded_of_isDir (by decide +kernel)) rfl ?_ ?_
    (by decide +kernel)
  · rintro a (rfl | rfl) b (rfl | rfl) heq
    · rfl
    · exact absurd heq hdigests
    · exact absurd heq.symm hdigests
    · rfl
  · simp [requests, Demand.key?]
  · simp [requests]
    decide

end Folder

end Workbench.Asset
