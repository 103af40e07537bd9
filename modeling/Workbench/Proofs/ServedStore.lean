import Workbench.Package.Script
import Workbench.Proofs.Archiving
import Workbench.Proofs.ReadThrough
import Workbench.Proofs.StoreLaws
import Workbench.Proofs.Untouched

set_option autoImplicit false

/-! # What is archived is what is read

The archives of a run are read back through a mount over its site: the manifest binds each import
path to a path below the mount, the path is the key of an asset, the cache looks for the asset among
the files of the site, and there is the file into which the archive was copied. So a file system
that holds nothing of its own below the mount only ever shows files that the disk has at the same
place, and every archive is read as it was stored, in whatever order and however often. -/

namespace Workbench

namespace Asset

variable {σ ω : Type}

/-- A store in which looking and storing never fail. -/
structure Store.Reliable (s : Store σ) : Prop where
  get : ∀ state key, ∃ found, (s.get state key).1 = .ok found
  put : ∀ state key bytes, (s.put state key bytes).1 = .ok ()

theorem Memory.reliable : Memory.store.Reliable := ⟨fun _ _ => ⟨_, rfl⟩, fun _ _ _ => rfl⟩

/-- The files of a site, through a cache, where those below a name are mounted. -/
def Folder.mount (s : Store σ) (site name : String) : Mount (Cache σ Host.Disk) where
  roots := ["/" ++ name ++ "/"]
  fetch := fun c key => c.fetch s (Folder.source site) key

/-- Reconciling looks at no asset. -/
theorem Cache.source_reconcile (s : Store σ) (c : Cache σ ω) (version : String) :
    (c.reconcile s version).2.source = c.source := by
  have hkept : ∀ {α : Type} {c c' : Cache σ ω} {act : σ → Except Error α × σ}
      {result : Except Error α}, c.withStore act = (result, c') → c'.source = c.source := by
    rintro α c c' act result heq
    have hsource : (c.withStore act).2.source = c.source := rfl
    rwa [heq] at hsource
  unfold Cache.reconcile
  split
  · next hget => exact hkept hget
  next hget =>
  have hread := hkept hget
  split
  · exact hread
  split
  · next hclear => exact (hkept hclear).trans hread
  next hclear =>
  have hcleared := (hkept hclear).trans hread
  split
  · next hput => exact (hkept hput).trans hcleared
  · next hput =>
    have hmarked := (hkept hput).trans hcleared
    exact hmarked

end Asset

namespace FileSystem

variable {v : View} {fs : FileSystem} {p : Path}

/-- A file is placed where nothing is and no file stands in its way. -/
theorem Shows.placeFile_passable (h : fs.Shows v) (hfree : v p.parts = none)
    (hpass : v.Passable p.parts.dropLast) (bytes : ByteArray) :
    ∃ nodes, fs.placeFile p bytes = (.ok (), fs.withNodes nodes) ∧ Populated fs p bytes nodes := by
  have hp : p.parts ≠ [] := by
    intro hp
    obtain ⟨node, hv, -⟩ := h.table.root
    rw [hp, hv] at hfree
    cases hfree
  rcases h.placeFile (fun node hv => absurd (hfree.symm.trans hv) (by simp)) bytes with
    ⟨-, nodes, hplaced, hshows⟩ | ⟨e, hrefused⟩
  · exact ⟨nodes, hplaced, h.populated hp hfree hpass hshows⟩
  · obtain ⟨d, name, hparts⟩ := exists_concat hp
    obtain ⟨parent, hparent, rfl⟩ := parent?_eq hparts
    rw [hparts, List.dropLast_concat] at hpass
    obtain ⟨nodes, hmade, -⟩ := h.makeAbove parent (le_refl parent.parts.length)
      (by rwa [List.take_length])
    rw [FileSystem.placeFile, FileSystem.makeParents, hparent] at hrefused
    dsimp only at hrefused
    rw [makeDirs_eq, hmade] at hrefused
    cases hrefused

/-! ## A file system that mirrors a disk -/

/-- Below a name, a file system holds nothing but what a disk holds at the same place. -/
structure Mirrors (disk : Host.Disk) (base : List String) (name : String) (fs : FileSystem) :
    Prop where
  files : ∀ (q : Path) data, [name] <+: q.parts → fs.bytesAt q = some data →
    disk.shapeAt (base ++ q.parts) = some (.file data)
  dirs : ∀ q : Path, [name] <+: q.parts → (fs.nodes.get? q.dirKey).isSome →
    disk.shapeAt (base ++ q.parts) = some .dir

variable {disk : Host.Disk} {base : List String} {name : String}

theorem ne_nil_of_below {parts : List String} (h : [name] <+: parts) : parts ≠ [] := by
  rintro rfl
  exact absurd (List.prefix_nil.1 h) (by simp)

/-- Nothing is below the name yet. -/
theorem mirrors_of_absent (h : ∀ q : Path, [name] <+: q.parts → fs.Absent q) :
    Mirrors disk base name fs where
  files q data hq hdata := by
    obtain ⟨times, hget⟩ := bytesAt_eq_some_iff.1 hdata
    rw [(h q hq).1] at hget
    cases hget
  dirs q hq hdir := by
    rw [(h q hq).2] at hdir
    cases hdir

theorem absent_empty (clock : Time) {q : Path} (hq : q.parts ≠ []) : (empty clock).Absent q := by
  have hroot : ∀ key, key ≠ Path.root.dirKey → (empty clock).nodes.get? key = none := by
    intro key hkey
    rw [empty, Dictionary.get?_cons, if_neg hkey.symm]
    rfl
  exact ⟨hroot _ (Path.fileKey_ne_dirKey hq _), hroot _ fun heq => hq (Path.dirKey_inj.1 heq)⟩

/-- Where the disk has a file, there is that file, or nothing is there and no file is in the way. -/
theorem Mirrors.free (hm : Mirrors disk base name fs) (h : fs.Shows v) (hp : [name] <+: p.parts)
    {data : ByteArray} (hfile : disk.shapeAt (base ++ p.parts) = some (.file data))
    (habsent : fs.bytesAt p = none) : v p.parts = none ∧ v.Passable p.parts.dropLast := by
  -- what the tree has at a place is found under the key of that place
  have hkey : ∀ {place : List String} {node : Node}, v place = some node →
      ∃ q : Path, q.parts = place ∧ fs.nodes.get? (q.key node.isDir) = some node := by
    intro place node hv
    have hproper := h.table.proper place (by rw [hv]; rfl)
    let q : Path := ⟨place, place.isEmpty, hproper, fun hnil => by rw [hnil]; rfl⟩
    exact ⟨q, rfl, (h.table.found _ _).2 ⟨q, rfl, hv⟩⟩
  constructor
  · cases hv : v p.parts with
    | none => rfl
    | some node =>
      obtain ⟨q, hq, hget⟩ := hkey hv
      cases node with
      | file data' times =>
        have hbytes : fs.bytesAt q = some data' := bytesAt_eq_some_iff.2 ⟨times, hget⟩
        rw [bytesAt_eq_of_parts fs hq, habsent] at hbytes
        cases hbytes
      | dir names times =>
        have hdir := hm.dirs q (hq ▸ hp) (by rw [show fs.nodes.get? q.dirKey = _ from hget]; rfl)
        rw [hq, hfile] at hdir
        cases hdir
  · intro place hplace node hv
    obtain ⟨q, hq, hget⟩ := hkey hv
    cases node with
    | dir names times => rfl
    | file data' times =>
      obtain ⟨more, hmore⟩ := hplace
      obtain ⟨init, last, hparts⟩ := exists_concat (ne_nil_of_below hp)
      rw [hparts, List.dropLast_concat] at hmore
      have hsplit : p.parts = place ++ (more ++ [last]) := by
        rw [hparts, ← hmore, List.append_assoc]
      have hname : [name] <+: place := by
        refine List.prefix_of_prefix_length_le hp ⟨_, hsplit.symm⟩ ?_
        rw [List.length_singleton, Nat.one_le_iff_ne_zero, ne_eq, List.length_eq_zero_iff]
        rintro rfl
        obtain ⟨root, hroot, hdir⟩ := h.table.root
        rw [hv, Option.some.injEq] at hroot
        rw [← hroot] at hdir
        cases hdir
      have hold : disk.shapeAt (base ++ place) = some (.file data') := by
        rw [← hq]
        exact hm.files q data' (hq ▸ hname) (bytesAt_eq_some_iff.2 ⟨times, hget⟩)
      obtain ⟨n, rest, hrest⟩ := List.exists_cons_of_ne_nil
        (List.append_ne_nil_of_right_ne_nil more (List.cons_ne_nil last []))
      have hdir : disk.shapeAt (base ++ place) = some .dir := by
        refine Host.Disk.shapeAt_above n rest ?_
        rw [← hrest, List.append_assoc, ← hsplit, hfile]
        rfl
      rw [hold] at hdir
      cases hdir

/-- Reading a file again changes nothing but its times. -/
theorem Mirrors.touch (hm : Mirrors disk base name fs) {data : ByteArray} {times : Times}
    (hp : p.parts ≠ []) (hfile : fs.file p = .ok (data, times)) (times' : Times) :
    Mirrors disk base name (fs.setFile p data times') := by
  refine ⟨fun q data' hq hdata => hm.files q data' hq ?_, fun q hq hdir => hm.dirs q hq ?_⟩
  · rwa [bytesAt_touch hfile] at hdata
  · have hget : (fs.setFile p data times').nodes.get? q.dirKey = fs.nodes.get? q.dirKey := by
      have hput := Dictionary.get?_put fs.nodes p.fileKey (.file data times') q.dirKey
      rw [if_neg (Path.fileKey_ne_dirKey hp q)] at hput
      exact hput
    rwa [hget] at hdir

/-- A file that is put where the disk has it leaves a mirror. -/
theorem Mirrors.populated (hm : Mirrors disk base name fs) {data : ByteArray}
    {nodes : Dictionary String Node} (hp : [name] <+: p.parts)
    (hfile : disk.shapeAt (base ++ p.parts) = some (.file data))
    (hpopulated : Populated fs p data nodes) : Mirrors disk base name (fs.withNodes nodes) := by
  have hne := ne_nil_of_below hp
  constructor
  · intro q data' hq hdata
    by_cases hself : q.parts = p.parts
    · have hbytes : (fs.withNodes nodes).bytesAt p = some data :=
        bytesAt_eq_some_iff.2 ⟨_, hpopulated.file⟩
      rw [bytesAt_eq_of_parts _ hself, hbytes] at hdata
      rw [hself, hfile, Option.some.inj hdata]
    · refine hm.files q data' hq ?_
      have hget : nodes.get? q.fileKey = fs.nodes.get? q.fileKey :=
        hpopulated.others _ (fun heq => hself (Path.fileKey_inj.1 heq)) fun n _ =>
          Path.fileKey_ne_dirKey (ne_nil_of_below hq) _
      have hsame : (fs.withNodes nodes).bytesAt q = fs.bytesAt q := bytesAt_congr hget
      rwa [← hsame]
  · intro q hq hdir
    by_cases habove : ∃ n, n < p.parts.length ∧ q.dirKey = (p.above n).dirKey
    · obtain ⟨n, hn, heq⟩ := habove
      have hparts : q.parts = p.parts.take n := Path.dirKey_inj.1 heq
      have hsplit : p.parts = q.parts ++ p.parts[n] :: p.parts.drop (n + 1) := by
        rw [hparts, List.cons_getElem_drop_succ, List.take_append_drop]
      refine Host.Disk.shapeAt_above p.parts[n] (p.parts.drop (n + 1)) ?_
      rw [List.append_assoc, ← hsplit, hfile]
      rfl
    · push Not at habove
      refine hm.dirs q hq ?_
      rwa [← hpopulated.others _ (fun heq => Path.fileKey_ne_dirKey hne q heq.symm) habove]

theorem goOn_readAll (text : String) {data : ByteArray} (hdata : fs.bytesAt p = some data) :
    ∃ times times', fs.file p = .ok (data, times) ∧
      (Operation.readAll text).goOn fs p = (.ok (.bytes data), fs.setFile p data times') := by
  obtain ⟨times, hget⟩ := bytesAt_eq_some_iff.1 hdata
  have hfile : fs.file p = .ok (data, times) := by rw [file, hget]
  refine ⟨times, { times with accessed := fs.clock }, hfile, ?_⟩
  rw [Operation.goOn, readLocal, hfile]
  rfl

/-- A file that the disk has is read through a mount that answers with it. -/
theorem Mirrors.readAll {World : Type} (hm : Mirrors disk base name fs) (h : Reachable fs)
    (m : Asset.Mount World) {world world' : World} {text : String} {bytes : ByteArray}
    (hresolve : fs.resolve text = .ok p) (htrailing : p.trailing = false)
    (hcovers : m.covers p = true) (hp : [name] <+: p.parts)
    (hfile : disk.shapeAt (base ++ p.parts) = some (.file bytes))
    (hfetch : m.fetch world p.toString = (.ok bytes, world')) :
    ∃ fs' world'', fs.perform (some m) world (.readAll text) = (.ok (.bytes bytes), fs', world'') ∧
      Mirrors disk base name fs' ∧ (world'' = world ∨ world'' = world') := by
  obtain ⟨v, hv⟩ := h.shows
  have hne := ne_nil_of_below hp
  cases hdata : fs.bytesAt p with
  | some data =>
    -- it was read before, and is there as the disk has it
    have hsame := hm.files p data hp hdata
    rw [hfile] at hsame
    cases hsame
    obtain ⟨times, times', hopen, hread⟩ := goOn_readAll text hdata
    refine ⟨_, world, ?_, hm.touch hne hopen times', .inl rfl⟩
    have hpopulate := populate_of_bytesAt (by rw [hdata]; rfl) (some m) world
    rw [perform_eq_withFetched _ _ _ rfl, withFetched_eq hresolve hpopulate, hread]
  | none =>
    -- it is fetched, and nothing keeps it from its place
    obtain ⟨hfree, hpass⟩ := hm.free hv hp hfile hdata
    have habsent : fs.Absent p := (hv.absent_iff htrailing).2 (by
      rw [hv.table.find?_eq, htrailing, if_neg Bool.false_ne_true, hfree])
    have hwants : Wants m fs (.readAll text) p :=
      ⟨text, rfl, hresolve, htrailing, hcovers, habsent⟩
    obtain ⟨nodes, hplaced, hpopulated⟩ := hv.placeFile_passable hfree hpass bytes
    have hdeliver : fs.deliver p (m.fetch world p.toString).1 = (.ok (), fs.withNodes nodes) := by
      rw [hfetch]
      exact hplaced
    have hbytes : (fs.withNodes nodes).bytesAt p = some bytes :=
      bytesAt_eq_some_iff.2 ⟨_, hpopulated.file⟩
    obtain ⟨times, times', hopen, hread⟩ := goOn_readAll text hbytes
    refine ⟨_, world', ?_, (hm.populated hp hfile hpopulated).touch hne hopen times', .inr rfl⟩
    rw [(perform_of_wants hv world hwants hdeliver).2 rfl, hread, hfetch]

end FileSystem

namespace Package

open Host (Disk Job)
open Asset (Cache Store Mount)

variable {World σ : Type} {a : Archivist World} {site name : String} {s : Store σ}
  {look : σ → String → Option ByteArray}

namespace Archivist

/-! ## Archives as assets -/

/-- A stored path is the key of an asset. -/
theorem Placed.storedPath_isKey (h : a.Placed site name) (importPath : String) :
    a.storedPath importPath ≠ "" ∧ a.storedPath importPath ≠ Asset.versionKey := by
  have hhead := h.storedPath_head importPath
  constructor
  · intro heq
    rw [heq] at hhead
    exact absurd hhead (by decide)
  · intro heq
    rw [heq] at hhead
    exact absurd hhead (by decide)

/-- A cache may serve, and of the archives in a store it holds only what is there. -/
structure Current (a : Archivist World) (look : σ → String → Option ByteArray) (d : Disk)
    (c : Cache σ Disk) : Prop where
  reconciled : c.isReconciled = true
  source : c.source = d
  entries : ∀ importPath bytes, IsImportPath importPath →
    look c.store (a.storedPath importPath) = some bytes →
    d.read (a.storeFile importPath) = .ok bytes

/-- Once it was cleared, a cache is current. -/
theorem current_of_reconcile (hs : s.Lawful look) (hplaced : a.Placed site name) {state : σ}
    {d : Disk} {version : String} {c : Cache σ Disk}
    (h : (Cache.fresh state d).reconcile s version = (.ok true, c)) : a.Current look d c := by
  have hsource := Cache.source_reconcile s (Cache.fresh state d) version
  have hway := Cache.reconciling hs (Cache.fresh state d) version
  rw [h] at hsource hway
  cases hway with
  | cleared _ hreconciled _ hempty =>
    refine ⟨hreconciled, hsource, fun importPath bytes _ hfound => ?_⟩
    rw [hempty _ (hplaced.storedPath_isKey importPath).2] at hfound
    cases hfound

/-- An archive that is in the store is fetched as an asset. -/
theorem Current.fetch {d : Disk} {c : Cache σ Disk} (hc : a.Current look d c)
    (hs : s.Lawful look) (hreliable : s.Reliable) (hplaced : a.Placed site name)
    {importPath : String} (hi : IsImportPath importPath) {bytes : ByteArray}
    (hread : d.read (a.storeFile importPath) = .ok bytes) :
    ∃ c', c.fetch s (Asset.Folder.source site) (a.storedPath importPath) = (.ok bytes, c') ∧
      a.Current look d c' := by
  obtain ⟨hempty, hversion⟩ := hplaced.storedPath_isKey importPath
  have hcheck : c.check (a.storedPath importPath) = .ok () :=
    Cache.check_eq_ok_iff.2 ⟨hc.reconciled, hempty, hversion⟩
  have hsource : Asset.Folder.source site c.source (a.storedPath importPath) = (.ok bytes, d) := by
    rw [Asset.Folder.source, Asset.Folder.fetch, hplaced.filePath?_storedPath hi, hc.source]
    dsimp only
    rw [hread]
  rcases hget : s.get c.store (a.storedPath importPath) with ⟨found, store₁⟩
  have hlook : ∀ key, look store₁ key = look c.store key := fun key => by
    rw [← hs.get_look c.store (a.storedPath importPath) key, hget]
  obtain ⟨found, hok⟩ := hreliable.get c.store (a.storedPath importPath)
  rw [hget] at hok
  subst hok
  have hfound : found = look c.store (a.storedPath importPath) :=
    hs.get_found c.store (a.storedPath importPath) found (by rw [hget])
  rw [Cache.fetch, hcheck, Cache.withStore_eq c hget]
  cases found with
  | some old =>
    -- what the cache has is what the file has
    have hold := hc.entries importPath old hi hfound.symm
    rw [hread] at hold
    cases hold
    refine ⟨_, rfl, hc.reconciled, hc.source, fun j data hj hdata => hc.entries j data hj ?_⟩
    rwa [hlook] at hdata
  | none =>
    dsimp only
    rw [hsource]
    dsimp only
    rcases hput : s.put store₁ (a.storedPath importPath) bytes with ⟨result, store₂⟩
    have hdone := hreliable.put store₁ (a.storedPath importPath) bytes
    rw [hput] at hdone
    subst hdone
    rw [Cache.withStore_eq _ hput]
    refine ⟨_, rfl, hc.reconciled, rfl, fun j data hj hdata => ?_⟩
    by_cases hkey : a.storedPath j = a.storedPath importPath
    · obtain rfl := storedPath_inj hkey
      have hstored := hs.put_done store₁ (a.storedPath j) bytes (by rw [hput])
      rw [hput, hdata] at hstored
      rw [hread, Option.some.inj hstored]
    · have helsewhere := hs.put_elsewhere store₁ (a.storedPath importPath) bytes _ hkey
      rw [hput, hlook] at helsewhere
      exact hc.entries j data hj (helsewhere ▸ hdata)

/-- Whatever archives are read, in whatever order, they are read as they are in the store. -/
theorem watch_reads (hs : s.Lawful look) (hreliable : s.Reliable) (hplaced : a.Placed site name)
    {d : Disk} {stored : String → ByteArray} {script : List (Time × String)}
    (hscript : ∀ x ∈ script, IsImportPath x.2 ∧ d.read (a.storeFile x.2) = .ok (stored x.2))
    {fs : FileSystem} (hfs : FileSystem.Reachable fs)
    (hmirror : FileSystem.Mirrors d (d.placeOf site) name fs) {c : Cache σ Disk}
    (hc : a.Current look d c) :
    (FileSystem.watch (Asset.Folder.mount s site name) fs c
      (script.map fun x => (x.1, .readAll (a.storedPath x.2)))).map (·.reply) =
        script.map fun x => .ok (.bytes (stored x.2)) := by
  induction script generalizing fs c with
  | nil => rfl
  | cons entry script ih =>
    obtain ⟨now, importPath⟩ := entry
    obtain ⟨hi, hread⟩ := hscript _ List.mem_cons_self
    obtain ⟨p, hparse, hparts, htrailing⟩ := hplaced.parse_storedPath hi
    have habsolute : Path.isAbsolute (a.storedPath importPath) = true := by
      rw [Path.isAbsolute, hplaced.storedPath_head]
      rfl
    have hresolve : ({ fs with clock := now } : FileSystem).resolve (a.storedPath importPath) =
        .ok p := (FileSystem.resolve_eq_ok_iff _ habsolute p).2 hparse
    have hbelow : [name] <+: p.parts := by
      rw [hparts]
      exact ⟨_, rfl⟩
    have hcovers : (Asset.Folder.mount s site name).covers p = true := by
      rw [Asset.Mount.covers, Asset.Folder.mount, List.any_cons, hplaced.liesUnder hbelow,
        Bool.true_or]
    have hfile : d.shapeAt (d.placeOf site ++ p.parts) = some (.file (stored importPath)) := by
      rw [hparts, ← hplaced.below_site hi]
      exact Disk.shapeAt_of_read hread
    obtain ⟨c', hfetch, hc'⟩ := hc.fetch hs hreliable hplaced hi hread
    rw [← hplaced.toString_eq hparts] at hfetch
    have hticked : FileSystem.Mirrors d (d.placeOf site) name { fs with clock := now } :=
      ⟨hmirror.files, hmirror.dirs⟩
    obtain ⟨fs', c'', hperform, hmirror', hworld⟩ := hticked.readAll (hfs.tick now)
      (Asset.Folder.mount s site name) hresolve htrailing hcovers hbelow hfile hfetch
    have hc'' : a.Current look d c'' := by
      rcases hworld with rfl | rfl
      · exact hc
      · exact hc'
    have hfs' : FileSystem.Reachable fs' := by
      have hstep := (hfs.tick now).step (some (Asset.Folder.mount s site name)) c
        (.readAll (a.storedPath importPath))
      rwa [hperform] at hstep
    have hrest := ih (fun x hx => hscript x (List.mem_cons_of_mem _ hx)) hfs' hmirror' hc''
    rw [List.map_cons, FileSystem.watch_cons, List.map_cons, List.map_cons, FileSystem.momentOf,
      hperform, hrest]

/-! ## What is served -/

/-- The path under which the archive of an import path is served. -/
def servedPath (name importPath : String) : String := "/" ++ name ++ "/" ++ importPath ++ ".a"

/-- What a run has reported is bound in its manifest and read as it was archived. -/
structure Serves (a : Archivist World) (site name : String) (known : Manifest) (log : List Deed)
    (report : Report) (d : Disk) : Prop where
  /-- The manifest binds what was reported to where it is served, and all else as before. -/
  bound : report.records ≠ [] → ∃ m, Manifest.load d a.manifestPath = .ok m ∧
    ∀ i, m.get? i =
      if i ∈ report.records.map (·.importPath) then some (servedPath name i) else known.get? i
  /-- So whatever a source imports, its configuration names what is served, or was bound before. -/
  named : report.records ≠ [] → ∀ m, Manifest.load d a.manifestPath = .ok m →
    ∀ source, ∀ entry ∈ (ImportConfig.compile (Source.imports source) m).entries,
      entry.1 ∈ report.records.map (·.importPath) ∧ entry.2 = servedPath name entry.1 ∨
        known.get? entry.1 = some entry.2
  /-- A file system with nothing of its own below the name reads the archives through a cache that
      was cleared, any of them in any order. -/
  read : ∃ stored : String → ByteArray,
    (∀ r ∈ report.records, a.Archived log r.importPath (stored r.importPath)) ∧
    ∀ {σ : Type} (s : Store σ) (look : σ → String → Option ByteArray), s.Lawful look → s.Reliable →
    ∀ state version c, (Cache.fresh state d).reconcile s version = (.ok true, c) →
    ∀ fs, FileSystem.Reachable fs → (∀ p : Path, [name] <+: p.parts → fs.Absent p) →
    ∀ script : List (Time × String), (∀ x ∈ script, x.2 ∈ report.records.map (·.importPath)) →
      (FileSystem.watch (Asset.Folder.mount s site name) fs c
        (script.map fun x => (x.1, .readAll (servedPath name x.2)))).map (·.reply) =
          script.map fun x => .ok (.bytes (stored x.2))

/-- What is real is served. -/
theorem Real.serves {known : Manifest} {d : Draft (Recorded World)} (h : a.Real known d)
    (hplaced : a.Placed site name) (hgood : ∀ r ∈ d.report.records, IsImportPath r.importPath) :
    a.Serves site name known d.log d.report (a.diskOf d) := by
  obtain ⟨m, hspells, hbound⟩ := h.bound
  have hserved : a.storedPath = servedPath name := funext hplaced.storedPath_eq
  have hload : d.report.records ≠ [] → Manifest.load (a.diskOf d) a.manifestPath = .ok m := by
    intro hne
    obtain ⟨bytes, hread⟩ := h.readable hne
    rw [Disk.contentAt_of_read hread] at hspells
    rw [Manifest.load, hread]
    exact hspells.ofBytes
  constructor
  case bound =>
    intro hne
    refine ⟨m, hload hne, fun i => ?_⟩
    rw [hbound, hserved]
  case named =>
    intro hne m' hm' source entry hentry
    rw [hload hne] at hm'
    cases hm'
    obtain ⟨i, -, hi⟩ := List.mem_filterMap.1 hentry
    obtain ⟨archive, hget, rfl⟩ := Option.map_eq_some_iff.1 hi
    rw [hbound, hserved] at hget
    split at hget
    · next hmem => exact .inl ⟨hmem, (Option.some.inj hget).symm⟩
    · exact .inr hget
  case read =>
    let stored : String → ByteArray := fun i =>
      (((a.diskOf d).read (a.storeFile i)).toOption).getD .empty
    have hstored : ∀ r ∈ d.report.records, a.Archived d.log r.importPath (stored r.importPath) ∧
        (a.diskOf d).read (a.storeFile r.importPath) = .ok (stored r.importPath) := by
      intro r hr
      obtain ⟨bytes, harchived, hread⟩ := h.held r hr
      have hbytes : stored r.importPath = bytes := by
        show (((a.diskOf d).read (a.storeFile r.importPath)).toOption).getD .empty = bytes
        rw [hread]
        rfl
      rw [hbytes]
      exact ⟨harchived, hread⟩
    refine ⟨stored, fun r hr => (hstored r hr).1, ?_⟩
    intro σ s look hs hreliable state version c hreconcile fs hfs hclear script hscript
    rw [← hserved]
    refine watch_reads hs hreliable hplaced (fun x hx => ?_) hfs
      (FileSystem.mirrors_of_absent hclear) (current_of_reconcile hs hplaced hreconcile)
    obtain ⟨r, hr, heq⟩ := List.mem_map.1 (hscript x hx)
    rw [← heq]
    exact ⟨hgood r hr, (hstored r hr).2⟩

/-! ## Rehearsed runs -/

/-- An archivist who tries out a script. -/
def rehearsed : Archivist BuildRehearsal :=
  ⟨BuildRehearsal.builder, BuildRehearsal.diskPart, "site/prebuilt", "site/prebuilt/manifest.txt",
    "/prebuilt"⟩

theorem rehearsed_placed : rehearsed.Placed "site" "prebuilt" where
  component := by decide
  oneLine := by decide
  storeDir := rfl
  urlPrefix := by decide
  manifest := ⟨"manifest.txt", by decide, by decide⟩

theorem exists_run {targets : List Target} {progress : Progress} {world : World}
    {paths : List String}
    (h : (a.run targets progress world).1.toOption.map (·.records.map (·.importPath)) =
      some paths) :
    ∃ report progress' world', a.run targets progress world = (.ok report, progress', world') ∧
      report.records.map (·.importPath) = paths := by
  rcases hrun : a.run targets progress world with ⟨e | report, progress', world'⟩
  · rw [hrun] at h
    cases h
  · rw [hrun] at h
    exact ⟨report, progress', world', rfl, Option.some.inj h⟩

/-- A disk with nothing on it but a manifest. -/
def manifestDisk (path content : String) : Disk :=
  (resultOf (Job.install path (some content.toUTF8) Disk.fileMode) .empty).2

/-- Files with these texts, as a script has them. -/
def textFiles (files : List (String × String)) : List (String × Option ByteArray) :=
  files.map fun file => (file.1, some file.2.toUTF8)

/-- A builder who makes files for each package that it builds, and announces a work directory, and
    who makes files for packages that it then fails to fetch. -/
def scripted (disk : Disk) (built : List (String × List (String × String) × String))
    (unfetched : List (String × List (String × String))) : BuildRehearsal where
  disk := disk
  script :=
    { standard := .ok []
      available := unfetched.map fun package => (package.1, [.ok false])
      fetch := unfetched.map fun package =>
        (package.1, [⟨textFiles package.2, .ok ⟨false, "", ""⟩⟩])
      build := built.map fun package =>
        (package.1, [⟨textFiles package.2.1, .ok ⟨true, "", "WORK=" ++ package.2.2 ++ "\n"⟩⟩]) }
  called := []
  forgotten := 0

/-- A build that leaves two archives, of the package and of one that it imports. -/
def pairBuild : BuildRehearsal :=
  scripted .empty [("a", [("work/b001/_pkg_.a", "A"),
    ("work/b001/importcfg", "packagefile x/b=lib/b.a\n"), ("lib/b.a", "B")], "work")] []

/-- A builder that names a file of the store as an archive, and writes into the store when it fails
    to fetch another package. -/
def carelessBuild : BuildRehearsal :=
  scripted .empty [("a", [("work/b001/_pkg_.a", "A"),
    ("work/b001/importcfg", "packagefile x=site/prebuilt/x.a\n"), ("site/prebuilt/x.a", "B")],
    "work")] [("b", [("site/prebuilt/a.a", "X")])]

/-- What is done when the careless builder works for two targets. -/
def carelessDeeds : List Deed :=
  rehearsed.deeds [.package "a", .package "b"] ⟨[], []⟩ carelessBuild

/-! ## Runs and what they serve -/

/-- What a run reports is served as it was archived, as long as neither the builder nor the removal
    of its work directories touches it. The manifest may be absent before, or hold lines that are
    ended. -/
theorem run_serves (hdisk : ∀ w d, a.disk.get (a.disk.set w d) = d) (hplaced : a.Placed site name)
    {targets : List Target} {progress progress' : Progress} {world world' : World}
    {report : Report} {known : Manifest} (hgrounded : (a.disk.get world).Grounded)
    (hspells : Manifest.Spells
      ((a.disk.get world).contentAt ((a.disk.get world).placeOf a.manifestPath)) known)
    (hrun : a.run targets progress world = (.ok report, progress', world'))
    (hgood : ∀ r ∈ report.records, IsImportPath r.importPath)
    (hquiet : a.Undisturbed (a.deeds targets progress world)) :
    a.Serves site name known (a.deeds targets progress world) report (a.disk.get world') :=
  (real_of_run hdisk hplaced hgrounded hspells hrun hgood hquiet).serves hplaced hgood

/-- Both archives of a build are served. -/
theorem run_serves_pair : ∃ report progress world,
    rehearsed.run [.package "a"] ⟨[], []⟩ pairBuild = (.ok report, progress, world) ∧
    report.records.map (·.importPath) = ["a", "x/b"] ∧ rehearsed.Placed "site" "prebuilt" ∧
    rehearsed.Undisturbed (rehearsed.deeds [.package "a"] ⟨[], []⟩ pairBuild) ∧
    rehearsed.Serves "site" "prebuilt" .empty (rehearsed.deeds [.package "a"] ⟨[], []⟩ pairBuild)
      report world.disk := by
  have hreport : (rehearsed.run [.package "a"] ⟨[], []⟩ pairBuild).1.toOption.map
      (·.records.map (·.importPath)) = some ["a", "x/b"] := by decide +kernel
  obtain ⟨report, progress, world, hrun, hpaths⟩ := exists_run hreport
  have hquiet : rehearsed.Undisturbed (rehearsed.deeds [.package "a"] ⟨[], []⟩ pairBuild) :=
    undisturbed_of_isUndisturbed (by decide +kernel)
  have hgood : ∀ i ∈ report.records.map (·.importPath), IsImportPath i := by
    rw [hpaths]
    decide +kernel
  refine ⟨report, progress, world, hrun, hpaths, rehearsed_placed, hquiet, ?_⟩
  exact run_serves (fun _ _ => rfl) rehearsed_placed rfl Manifest.spells_empty hrun
    (fun r hr => hgood _ (List.mem_map.2 ⟨r, hr, rfl⟩)) hquiet

/-- What a careless builder did to the store is read, and not what was copied. -/
theorem carelessBuild_spoils : ∃ report progress world cache,
    rehearsed.run [.package "a", .package "b"] ⟨[], []⟩ carelessBuild =
      (.ok report, progress, world) ∧
    rehearsed.Placed "site" "prebuilt" ∧
    report.records.map (·.importPath) = ["a", "x"] ∧ IsImportPath "a" ∧ IsImportPath "x" ∧
    (∀ archive before content, rehearsed.Copied carelessDeeds "a" archive before →
      before.read archive = .ok content → content = "A".toUTF8) ∧
    (∀ archive before content, rehearsed.Copied carelessDeeds "x" archive before →
      before.read archive = .ok content → content = "B".toUTF8) ∧
    (Cache.fresh [] world.disk).reconcile Asset.Memory.store "1" = (.ok true, cache) ∧
    (FileSystem.watch (Asset.Folder.mount Asset.Memory.store "site" "prebuilt") (.empty ⟨0, 0⟩)
      cache [(⟨1, 0⟩, .readAll "/prebuilt/a.a"), (⟨2, 0⟩, .readAll "/prebuilt/x.a")]).map (·.reply) =
        [.ok (.bytes "X".toUTF8), .ok (.bytes "".toUTF8)] := by
  have hreport : (rehearsed.run [.package "a", .package "b"] ⟨[], []⟩
    carelessBuild).1.toOption.map (·.records.map (·.importPath)) = some ["a", "x"] := by
      decide +kernel
  obtain ⟨report, progress, world, hrun, hpaths⟩ := exists_run hreport
  let spoiled : String → ByteArray := fun i => if i = "a" then "X".toUTF8 else "".toUTF8
  have hspoiled : ∀ i ∈ ["a", "x"], world.disk.read (rehearsed.storeFile i) = .ok (spoiled i) := by
    have hleft : ∀ i ∈ ["a", "x"], ((rehearsed.run [.package "a", .package "b"] ⟨[], []⟩
      carelessBuild).2.2.disk.read (rehearsed.storeFile i)).toOption = some (spoiled i) := by
        decide +kernel
    rw [hrun] at hleft
    exact fun i hi => toOption_eq_some_iff.1 (hleft i hi)
  -- the deeds that may have copied an archive found it as it was built
  have hcopied : ∀ entry ∈ leftArchives carelessDeeds, ∀ deed ∈ carelessDeeds, deed.cause = .job →
      deed.mayBe (Job.copy entry.2 (rehearsed.storeFile entry.1)) = true →
        ∀ content ∈ (deed.before.read entry.2).toOption,
          content = if entry.1 = "a" then "A".toUTF8 else "B".toUTF8 := by
    decide +kernel
  have hbuilt : ∀ i archive before content, rehearsed.Copied carelessDeeds i archive before →
      before.read archive = .ok content →
        content = if i = "a" then "A".toUTF8 else "B".toUTF8 := by
    intro i archive before content hcopy hread
    obtain ⟨hentry, deed, hdeed, rfl, hjob, hmayBe⟩ := hcopy.exists_deed
    exact hcopied _ hentry deed hdeed hjob hmayBe content (by rw [hread]; rfl)
  obtain ⟨cache, hreconcile⟩ : ∃ cache,
    (Cache.fresh [] world.disk).reconcile Asset.Memory.store "1" = (.ok true, cache) := ⟨_, rfl⟩
  have hproper : ∀ i ∈ ["a", "x"], IsImportPath i := by decide +kernel
  refine ⟨report, progress, world, cache, hrun, rehearsed_placed, hpaths, hproper "a" (by simp),
    hproper "x" (by simp), hbuilt "a", hbuilt "x", hreconcile, ?_⟩
  let script : List (Time × String) := [(⟨1, 0⟩, "a"), (⟨2, 0⟩, "x")]
  have hscript : ∀ entry ∈ script, IsImportPath entry.2 ∧
      world.disk.read (rehearsed.storeFile entry.2) = .ok (spoiled entry.2) := by
    intro entry hentry
    have hi : entry.2 ∈ ["a", "x"] := List.mem_map.2 ⟨entry, hentry, rfl⟩
    exact ⟨hproper _ hi, hspoiled _ hi⟩
  exact watch_reads Asset.Memory.lawful Asset.Memory.reliable rehearsed_placed hscript
    (.new ⟨0, 0⟩)
    (FileSystem.mirrors_of_absent fun q hq =>
      FileSystem.absent_empty _ (FileSystem.ne_nil_of_below hq))
    (current_of_reconcile Asset.Memory.lawful rehearsed_placed hreconcile)

end Archivist

end Package

end Workbench
