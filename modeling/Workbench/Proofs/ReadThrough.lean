import Workbench.Proofs.FileFrames

set_option autoImplicit false

/-! # What is asked of a mount

A mount with a record of its requests answers as the mount itself, so a run of operations over it is
a run over the mount, and shows which operation has asked for what. Only opening, looking at and
reading a path that is covered and absent ask, once. What is fetched is put beside all that is
there, and stays until it is unlinked or moved. -/

namespace Workbench

namespace Asset

variable {World : Type}

/-- What a mount was asked for, and its answers. -/
abbrev Requests := List (String × Except Error ByteArray)

/-- A mount that keeps record of its requests beside its world. -/
def Mount.logged (m : Mount World) : Mount (World × Requests) where
  roots := m.roots
  fetch world key :=
    let (answer, next) := m.fetch world.1 key
    (answer, next, world.2 ++ [(key, answer)])

end Asset

namespace FileSystem

variable {World α : Type} {v : View} {fs fs' : FileSystem} {p : Path} {m : Asset.Mount World}
  {world : World}

/-- An operation in a run: the file system and the world before it, the reply, what was asked of the
    mount, and the file system after it. -/
structure Moment (World : Type) where
  before : FileSystem
  world : World
  operation : Operation
  reply : Except Error Reply
  asked : Asset.Requests
  after : FileSystem

/-- Carry out operations over a mount and record them. The clock is set before each. -/
def watch (m : Asset.Mount World) (fs : FileSystem) (world : World) :
    List (Time × Operation) → List (Moment World)
  | [] => []
  | (now, op) :: rest =>
    let (reply, fs', world', asked) :=
      perform (some m.logged) { fs with clock := now } (world, []) op
    ⟨{ fs with clock := now }, world, op, reply, asked, fs'⟩ :: watch m fs' world' rest

/-- Nothing is at a path. -/
def Absent (fs : FileSystem) (p : Path) : Prop :=
  fs.nodes.get? p.fileKey = none ∧ fs.nodes.get? p.dirKey = none

/-- An operation touches a path that is an asset and is not there. -/
def Wants (m : Asset.Mount World) (fs : FileSystem) (op : Operation) (p : Path) : Prop :=
  ∃ text, op.fetched? = some text ∧ fs.resolve text = .ok p ∧ p.trailing = false ∧
    m.covers p = true ∧ fs.Absent p

/-- A fetched file was put at a path. All nodes that were there are as before, but that the nearest
    directory above the path has the next name. The operation may have gone on to empty the file. -/
structure Lays (before after : FileSystem) (op : Operation) (p : Path) (bytes : ByteArray) :
    Prop where
  file : after.bytesAt p = some bytes ∨ after.bytesAt p = some .empty ∧
    ∃ path mode, op = .openPath path mode ∧ mode.truncate = true
  kept : ∀ key node, before.nodes.get? key = some node → after.nodes.get? key = some node ∨
    ∃ n, ∃ hn : n < p.parts.length, key = (p.above n).dirKey ∧
      (∀ q : Path, q.parts = p.parts.take (n + 1) → before.Absent q) ∧
      after.nodes.get? key = some (node.addName before.clock p.parts[n])
  made : ∀ key node, after.nodes.get? key = some node → before.nodes.get? key = none →
    key = p.fileKey ∨ ∃ n < p.parts.length, key = (p.above n).dirKey

namespace Moment

/-- The operation has unlinked what is at a path, or moved it away. -/
def TakesAway (p : Path) (x : Moment World) : Prop :=
  x.operation.Removes x.before p ∧ ∃ reply, x.reply = .ok reply

/-- The operation may have changed the bytes of the file at a path. -/
def Rewrites (p : Path) (x : Moment World) : Prop := x.operation.Rewrites x.before p

/-- The operation was carried out over a mount, and its requests were recorded. -/
def Genuine (m : Asset.Mount World) (x : Moment World) : Prop :=
  ∃ world', x.before.perform (some m) x.world x.operation = (x.reply, x.after, world') ∧
    x.before.perform (some m.logged) (x.world, []) x.operation =
      (x.reply, x.after, world', x.asked)

end Moment

/-- When a mount is asked, and what becomes of its answers. -/
structure ReadThroughLaw (m : Asset.Mount World) (moments : List (Moment World)) : Prop where
  faithful : ∀ x ∈ moments, x.Genuine m
  /-- A mount is asked for what an operation touches and does not find, once, -/
  asked : ∀ x ∈ moments, ∀ p, Wants m x.before x.operation p →
    x.asked = [(p.toString, (m.fetch x.world p.toString).1)]
  /-- and for nothing else. -/
  only : ∀ x ∈ moments, ∀ request ∈ x.asked, ∃ p, Wants m x.before x.operation p ∧
    x.asked = [(p.toString, (m.fetch x.world p.toString).1)]
  /-- What is fetched is put beside what is there, or not at all. -/
  laid : ∀ x ∈ moments, ∀ (p : Path) bytes, x.asked = [(p.toString, .ok bytes)] →
    Lays x.before x.after x.operation p bytes ∨ x.after = x.before ∧ ∃ e, x.reply = .error e
  /-- Where an asset does not exist, the operation goes on as without a mount. -/
  missing : ∀ x ∈ moments, ∀ key key', x.asked = [(key, .error (.notFound key'))] →
    x.before.perform none () x.operation = (x.reply, x.after, ()) ∧
    ((∀ path mode, x.operation = .openPath path mode → mode.create = false) →
      x.after = x.before ∧ ∃ e, x.reply = .error e)
  /-- Where fetching fails, the operation fails with it. -/
  failed : ∀ x ∈ moments, ∀ key cause, (∀ key', cause ≠ .notFound key') →
    x.asked = [(key, .error cause)] → x.after = x.before ∧ x.reply = .error (.fetch key cause)
  /-- A file that was fetched stays, and is not asked for, until it is unlinked or moved. Its bytes
      are those after the last operation that may have rewritten it. -/
  stays : ∀ early x mid y late, moments = early ++ x :: (mid ++ y :: late) →
    ∀ (p : Path) bytes, x.asked = [(p.toString, .ok bytes)] → x.after.isFile p = true →
      (∀ z ∈ mid, ¬ z.TakesAway p) →
      (∀ answer, (p.toString, answer) ∉ y.asked) ∧
      (∃ data, y.before.bytesAt p = some data ∧
        (∀ text, y.operation = .readAll text → y.before.Names text p →
          y.reply = .ok (.bytes data)) ∧
        ((∀ z ∈ x :: mid, ¬ z.Rewrites p) → data = bytes)) ∧
      ∀ first z rest, x :: mid = first ++ z :: rest → (∀ w ∈ rest, ¬ w.Rewrites p) →
        y.before.bytesAt p = z.after.bytesAt p

/-! ## Requests -/

/-- What comes of an answer. -/
def deliver (fs : FileSystem) (p : Path) :
    Except Asset.Error ByteArray → Except Error Unit × FileSystem
  | .ok bytes => fs.placeFile p bytes
  | .error (.notFound _) => (.ok (), fs)
  | .error cause => (.error (.fetch p.toString cause), fs)

/-- Whether a mount is asked for a path. -/
def asks (m : Asset.Mount World) (fs : FileSystem) (p : Path) : Bool :=
  !(fs.find? p).isSome && (!p.trailing && m.covers p)

theorem populate_eq (m : Asset.Mount World) (fs : FileSystem) (world : World) (p : Path) :
    populate (some m) fs world p =
      if asks m fs p then
        ((fs.deliver p (m.fetch world p.toString).1).1,
          (fs.deliver p (m.fetch world p.toString).1).2, (m.fetch world p.toString).2)
      else (.ok (), fs, world) := by
  unfold populate asks
  by_cases hfound : (fs.find? p).isSome = true
  · simp [hfound]
  by_cases hcovered : (p.trailing || !m.covers p) = true
  · rw [if_neg hfound]
    dsimp only
    rw [if_pos hcovered, if_neg]
    rw [Bool.and_eq_true, Bool.and_eq_true, Bool.not_eq_true']
    rintro ⟨-, htrailing, hcovers⟩
    rw [Bool.not_eq_true'] at htrailing
    simp [htrailing, hcovers] at hcovered
  · rw [if_neg hfound]
    dsimp only
    rw [if_neg hcovered, if_pos (by simpa [hfound] using hcovered)]
    rcases m.fetch world p.toString with ⟨answer, world'⟩
    rcases answer with cause | bytes
    · cases cause <;> rfl
    · rfl

/-- The requests that are made for a path. -/
def requests (m : Asset.Mount World) (fs : FileSystem) (world : World) (p : Path) :
    Asset.Requests :=
  if asks m fs p then [(p.toString, (m.fetch world p.toString).1)] else []

/-- The requests that are made for a text. -/
def requestsAt (m : Asset.Mount World) (fs : FileSystem) (world : World) (text : String) :
    Asset.Requests :=
  match fs.resolve text with
  | .error _ => []
  | .ok p => requests m fs world p

/-- The requests that are made for an operation. -/
def requestsOf (m : Asset.Mount World) (fs : FileSystem) (world : World) (op : Operation) :
    Asset.Requests :=
  match op.fetched? with
  | none => []
  | some text => requestsAt m fs world text

theorem populate_logged (m : Asset.Mount World) (fs : FileSystem) (world : World)
    (log : Asset.Requests) (p : Path) :
    populate (some m.logged) fs (world, log) p =
      ((populate (some m) fs world p).1, (populate (some m) fs world p).2.1,
        (populate (some m) fs world p).2.2, log ++ requests m fs world p) := by
  have hasks : asks m.logged fs p = asks m fs p := rfl
  rw [populate_eq, populate_eq, hasks, requests]
  split_ifs
  · rfl
  · rw [List.append_nil]

theorem withFetched_logged (m : Asset.Mount World) (fs : FileSystem) (world : World)
    (log : Asset.Requests) (text : String)
    (act : FileSystem → Path → Except Error α × FileSystem) :
    withFetched (some m.logged) fs (world, log) text act =
      ((withFetched (some m) fs world text act).1, (withFetched (some m) fs world text act).2.1,
        (withFetched (some m) fs world text act).2.2, log ++ requestsAt m fs world text) := by
  unfold withFetched requestsAt
  cases hp : fs.resolve text with
  | error e => simp
  | ok p =>
    dsimp only
    rw [populate_logged]
    rcases populate (some m) fs world p with ⟨result, fs₁, world₁⟩
    cases result <;> rfl

/-- An operation does the same over a mount with a record, and its requests are recorded. -/
theorem perform_logged (m : Asset.Mount World) (fs : FileSystem) (world : World)
    (log : Asset.Requests) (op : Operation) :
    fs.perform (some m.logged) (world, log) op =
      ((fs.perform (some m) world op).1, (fs.perform (some m) world op).2.1,
        (fs.perform (some m) world op).2.2, log ++ requestsOf m fs world op) := by
  cases op with
  | openPath path mode =>
    simp only [perform, openPath, withFetched_logged, requestsOf, Operation.fetched?]
  | stat path => simp only [perform, stat, withFetched_logged, requestsOf, Operation.fetched?]
  | readAll path => simp only [perform, readAll, withFetched_logged, requestsOf, Operation.fetched?]
  | write number data position =>
    simp only [perform, requestsOf, Operation.fetched?, List.append_nil]
    split <;> rfl
  | truncateDescriptor | truncate | removeDir | unlink | setTimes | chdir | close =>
    simp only [perform, requestsOf, Operation.fetched?, List.append_nil, settle]
    split <;> rfl
  | read | statDescriptor | makeDir | rename | readDir | writeFile | contains | cwd | resolve
  | takeStdout | takeStderr | clearOutput =>
    simp only [perform, requestsOf, Operation.fetched?, List.append_nil, finish, report]

theorem Shows.absent_iff (h : fs.Shows v) (htrailing : p.trailing = false) :
    fs.Absent p ↔ fs.find? p = none := by
  have hp : p.parts ≠ [] := fun hp => Bool.false_ne_true (htrailing ▸ p.rootTrails hp)
  rw [Absent, h.table.get?_fileKey hp, h.table.get?_dirKey, h.table.find?_eq, htrailing,
    if_neg Bool.false_ne_true]
  cases v p.parts with
  | none => simp
  | some node => cases node <;> simp [Option.filter_some, Node.isFile, Node.isDir]

/-- A mount is asked exactly for what an operation wants. -/
theorem Shows.asks_eq_true_iff (h : fs.Shows v) {op : Operation} {text : String}
    (hop : op.fetched? = some text) (hp : fs.resolve text = .ok p) :
    asks m fs p = true ↔ Wants m fs op p := by
  simp only [asks, Bool.and_eq_true, Bool.not_eq_true', Option.isSome_eq_false_iff,
    Option.isNone_iff_eq_none]
  constructor
  · rintro ⟨hfree, htrailing, hcovers⟩
    exact ⟨text, hop, hp, htrailing, hcovers, (h.absent_iff htrailing).2 hfree⟩
  · rintro ⟨_, -, -, htrailing, hcovers, habsent⟩
    exact ⟨(h.absent_iff htrailing).1 habsent, htrailing, hcovers⟩

theorem requestsOf_of_wants (h : fs.Shows v) {op : Operation} (hwants : Wants m fs op p) :
    requestsOf m fs world op = [(p.toString, (m.fetch world p.toString).1)] := by
  obtain ⟨text, hop, hp, -⟩ := id hwants
  simp only [requestsOf, requestsAt, requests, hop, hp]
  rw [if_pos ((h.asks_eq_true_iff hop hp).2 hwants)]

theorem wants_of_mem_requestsOf (h : fs.Shows v) {op : Operation}
    {request : String × Except Asset.Error ByteArray} (hmem : request ∈ requestsOf m fs world op) :
    ∃ p, Wants m fs op p := by
  unfold requestsOf at hmem
  split at hmem
  · cases hmem
  next text hop =>
  unfold requestsAt at hmem
  split at hmem
  · cases hmem
  next p hp =>
  unfold requests at hmem
  split at hmem
  · next hasks => exact ⟨p, (h.asks_eq_true_iff hop hp).1 hasks⟩
  · cases hmem

/-! ## Going on after a fetch -/

/-- What an operation that fetches does once it has. -/
def Operation.goOn (fs : FileSystem) (p : Path) : Operation → Except Error Reply × FileSystem
  | .openPath _ mode => ((openLocal mode fs p).1.map .number, (openLocal mode fs p).2)
  | .stat _ => ((fs.statLocal p).1.map .stat, (fs.statLocal p).2)
  | .readAll _ => ((fs.readLocal p).1.map .bytes, (fs.readLocal p).2)
  | _ => (.ok .done, fs)

theorem withFetched_map {β : Type} (mount : Option (Asset.Mount World)) (fs : FileSystem)
    (world : World) (text : String) (act : FileSystem → Path → Except Error α × FileSystem)
    (f : α → β) :
    ((withFetched mount fs world text act).1.map f, (withFetched mount fs world text act).2) =
      withFetched mount fs world text fun fs p => ((act fs p).1.map f, (act fs p).2) := by
  unfold withFetched
  cases fs.resolve text with
  | error e => rfl
  | ok p =>
    dsimp only
    rcases populate mount fs world p with ⟨result, fs₁, world₁⟩
    cases result <;> rfl

theorem perform_eq_withFetched (mount : Option (Asset.Mount World)) (fs : FileSystem)
    (world : World) {op : Operation} {text : String} (hop : op.fetched? = some text) :
    fs.perform mount world op =
      withFetched mount fs world text fun fs p => op.goOn fs p := by
  cases op with
  | openPath path mode =>
    cases hop
    exact withFetched_map mount fs world text (openLocal mode) Reply.number
  | stat path =>
    cases hop
    exact withFetched_map mount fs world text statLocal Reply.stat
  | readAll path =>
    cases hop
    exact withFetched_map mount fs world text readLocal Reply.bytes
  | _ => cases hop

/-- What is wanted is delivered before the operation goes on. -/
theorem perform_of_wants (h : fs.Shows v) (world : World) {op : Operation}
    (hwants : Wants m fs op p) {fs₁ : FileSystem} {result : Except Error Unit}
    (hdeliver : fs.deliver p (m.fetch world p.toString).1 = (result, fs₁)) :
    (∀ e, result = .error e → fs.perform (some m) world op =
      (.error e, fs₁, (m.fetch world p.toString).2)) ∧
    (result = .ok () → fs.perform (some m) world op =
      ((op.goOn fs₁ p).1, (op.goOn fs₁ p).2, (m.fetch world p.toString).2)) := by
  obtain ⟨text, hop, hp, -⟩ := id hwants
  have hpopulate : populate (some m) fs world p = (result, fs₁, (m.fetch world p.toString).2) := by
    rw [populate_eq, if_pos ((h.asks_eq_true_iff hop hp).2 hwants), hdeliver]
  rw [perform_eq_withFetched _ _ _ hop]
  unfold withFetched
  rw [hp]
  dsimp only
  rw [hpopulate]
  constructor
  · rintro e rfl
    rfl
  · rintro rfl
    rfl

/-- Without a mount the operation goes on at once. -/
theorem perform_none_of_wants {op : Operation} (hwants : Wants m fs op p) :
    fs.perform none () op = ((op.goOn fs p).1, (op.goOn fs p).2, ()) := by
  obtain ⟨text, hop, hp, -⟩ := hwants
  rw [perform_eq_withFetched _ _ _ hop]
  exact withFetched_eq hp (populate_of_uncovered (fun _ hm => by cases hm) fs ()) op.goOn

/-- Where nothing is, only opening to create goes on to change anything. -/
theorem goOn_absent (h : fs.Shows v) {op : Operation} (hwants : Wants m fs op p)
    (hcreate : ∀ path mode, op = .openPath path mode → mode.create = false) :
    (op.goOn fs p).2 = fs ∧ ∃ e, (op.goOn fs p).1 = .error e := by
  obtain ⟨text, hop, -, htrailing, -, habsent⟩ := hwants
  have hfree := (h.absent_iff htrailing).1 habsent
  cases op with
  | openPath path mode =>
    have hcreated : fs.createFor p mode = .ok fs := by
      unfold createFor
      rw [hcreate path mode rfl]
      rfl
    simp only [Operation.goOn, openLocal, hcreated, hfree]
    exact ⟨trivial, _, rfl⟩
  | stat path =>
    simp only [Operation.goOn, statLocal, hfree]
    exact ⟨trivial, _, rfl⟩
  | readAll path =>
    simp only [Operation.goOn, readLocal, file, habsent.1]
    exact ⟨trivial, _, rfl⟩
  | _ => cases hop

/-- Going on with a file that is there leaves all other nodes alone. -/
theorem get?_goOn (hfile : (fs.bytesAt p).isSome) (htrailing : p.trailing = false) (op : Operation)
    {key : String} (hkey : key ≠ p.fileKey) :
    (op.goOn fs p).2.nodes.get? key = fs.nodes.get? key := by
  have hset : ∀ (fs₁ : FileSystem) data times,
      (fs₁.setFile p data times).nodes.get? key = fs₁.nodes.get? key := by
    intro fs₁ data times
    show (fs₁.nodes.put p.fileKey _).get? key = _
    rw [Dictionary.get?_put, if_neg hkey.symm]
  cases op with
  | openPath path mode =>
    have hsame : ∀ {fs₁}, fs.createFor p mode = .ok fs₁ → fs₁ = fs := by
      intro fs₁ hcreated
      refine (createFor_eq_ok hcreated).resolve_right fun hcreated => ?_
      have hfound := find?_isSome_of_bytesAt hfile htrailing
      rw [hcreated.2.1] at hfound
      cases hfound
    have houtcome := openLocal_outcome mode fs p
    show (openLocal mode fs p).2.nodes.get? key = _
    generalize openLocal mode fs p = outcome at houtcome ⊢
    cases houtcome with
    | uncreated => rfl
    | refused e fs₁ hcreated => rw [hsame hcreated]
    | dir fs₁ hcreated =>
      rw [hsame hcreated]
      rfl
    | emptied fs₁ data times hcreated =>
      rw [hsame hcreated]
      exact hset fs _ _
    | file fs₁ data times hcreated =>
      rw [hsame hcreated]
      rfl
  | stat path =>
    rw [Operation.goOn, statLocal_left]
  | readAll path =>
    rcases readLocal_left fs p with hleft | ⟨data, times, -, hleft⟩
    · rw [Operation.goOn, hleft]
    · rw [Operation.goOn, hleft, hset]
  | _ => rfl

/-- Going on with a file leaves its bytes, or empties it. -/
theorem bytesAt_goOn (hp : p.parts ≠ []) (hfile : (fs.bytesAt p).isSome) (op : Operation) :
    (op.goOn fs p).2.bytesAt p = fs.bytesAt p ∨
      (op.goOn fs p).2.bytesAt p = some .empty ∧
        ∃ path mode, op = .openPath path mode ∧ mode.truncate = true := by
  cases op with
  | openPath path mode =>
    exact (bytesAt_openLocal hp hfile mode).imp_right fun h => ⟨h.2.2, path, mode, rfl, h.1⟩
  | stat path =>
    rw [Operation.goOn, statLocal_left]
    exact Or.inl rfl
  | readAll path => exact Or.inl bytesAt_readLocal
  | _ => exact Or.inl rfl

/-! ## What is laid -/

/-- Where a name is new to a directory of a tree, nothing is at its path. -/
theorem Shows.absent_of_names (h : fs.Shows v) {q : Path} {parts : List String} {name : String}
    (hq : q.parts = parts ++ [name]) (hname : name ∉ v.names parts) : fs.Absent q := by
  have hnone : v q.parts = none := by
    rw [← Option.not_isSome_iff_eq_none, hq, h.tree.listed]
    exact hname
  have hparts : q.parts ≠ [] := by simp [hq]
  rw [Absent, h.table.get?_fileKey hparts, h.table.get?_dirKey, hnone]
  exact ⟨rfl, rfl⟩

/-- A populated path has nothing but the file and what leads to it. -/
theorem Populated.lays (h : fs.Shows v) {bytes : ByteArray} {nodes : Dictionary String Node}
    (hpopulated : Populated fs p bytes nodes) (htrailing : p.trailing = false) (op : Operation) :
    Lays fs (op.goOn (fs.withNodes nodes) p).2 op p bytes := by
  have hp : p.parts ≠ [] := fun hp => Bool.false_ne_true (htrailing ▸ p.rootTrails hp)
  have hbytes : (fs.withNodes nodes).bytesAt p = some bytes :=
    bytesAt_eq_some_iff.2 ⟨_, hpopulated.file⟩
  have hget : ∀ key ≠ p.fileKey,
      (op.goOn (fs.withNodes nodes) p).2.nodes.get? key = nodes.get? key := fun key hkey =>
    get?_goOn (by rw [hbytes]; rfl) htrailing op hkey
  refine ⟨?_, fun key node hnode => ?_, fun key node hnode hnone => ?_⟩
  · rcases bytesAt_goOn hp (by rw [hbytes]; rfl) op with hsame | hempty
    · exact Or.inl (hsame.trans hbytes)
    · exact Or.inr hempty
  · have hkey : key ≠ p.fileKey := by
      rintro rfl
      rw [hpopulated.noFile] at hnode
      cases hnode
    rw [hget key hkey]
    by_cases habove : ∃ n < p.parts.length, key = (p.above n).dirKey
    · obtain ⟨n, hn, rfl⟩ := habove
      have hnodes := hpopulated.above n hn
      rw [hnode, Option.getD_some] at hnodes
      by_cases hname : p.parts[n] ∈ node.names
      · -- a directory that has the name stays as it was
        refine Or.inl (hnodes.trans ?_)
        cases node with
        | file => cases hname
        | dir names times => rw [Node.addName, if_pos (show p.parts[n] ∈ names from hname)]
      · refine Or.inr ⟨n, hn, rfl, fun q hq => ?_, hnodes⟩
        rw [List.take_succ_eq_append_getElem hn] at hq
        refine h.absent_of_names hq ?_
        rw [h.table.get?_dirKey] at hnode
        have hview := (Option.filter_eq_some_iff.1 hnode).1
        rw [show p.parts.take n = (p.above n).parts from rfl, View.names_of_eq_some hview]
        exact hname
    · rw [hpopulated.others key hkey fun n hn heq => habove ⟨n, hn, heq⟩]
      exact Or.inl hnode
  · by_cases hkey : key = p.fileKey
    · exact Or.inl hkey
    rw [hget key hkey] at hnode
    by_cases habove : ∃ n < p.parts.length, key = (p.above n).dirKey
    · exact Or.inr habove
    · rw [hpopulated.others key hkey fun n hn heq => habove ⟨n, hn, heq⟩, hnone] at hnode
      cases hnode

/-- A file that is placed where nothing is populates the path, or nothing changes. -/
theorem Shows.placeFile_absent (h : fs.Shows v) (htrailing : p.trailing = false)
    (habsent : fs.Absent p) (bytes : ByteArray) :
    (∃ e, fs.placeFile p bytes = (.error e, fs)) ∨
      ∃ nodes, fs.placeFile p bytes = (.ok (), fs.withNodes nodes) ∧
        Populated fs p bytes nodes := by
  have hp : p.parts ≠ [] := fun hp => Bool.false_ne_true (htrailing ▸ p.rootTrails hp)
  have hfree : v p.parts = none := by
    have hfound := (h.absent_iff htrailing).1 habsent
    rwa [h.table.find?_eq, htrailing, if_neg Bool.false_ne_true] at hfound
  rcases h.placeFile (fun node hv => absurd (hfree.symm.trans hv) (by simp)) bytes with
    ⟨hpass, nodes, hplaced, hshows⟩ | hrefused
  · exact Or.inr ⟨nodes, hplaced, h.populated hp hfree hpass hshows⟩
  · exact Or.inl hrefused

/-! ## Runs over a mount -/

/-- All of a file is read. -/
theorem perform_readAll_of_bytesAt {data : ByteArray} (hdata : fs.bytesAt p = some data)
    {text : String} (htext : fs.Names text p) (world : World) :
    (fs.perform (some m) world (.readAll text)).1 = .ok (.bytes data) := by
  obtain ⟨q, hq, hparts⟩ := htext
  rw [← bytesAt_eq_of_parts fs hparts] at hdata
  obtain ⟨times, hget⟩ := bytesAt_eq_some_iff.1 hdata
  have hfile : fs.file q = .ok (data, times) := by rw [file, hget]
  have hpopulate := populate_of_bytesAt (by rw [hdata]; rfl) (some m) world
  rw [perform, readAll, withFetched_eq hq hpopulate, readLocal, hfile]
  rfl

/-- The record of an operation. -/
def momentOf (m : Asset.Mount World) (fs : FileSystem) (world : World) (op : Operation) :
    Moment World where
  before := fs
  world := world
  operation := op
  reply := (fs.perform (some m) world op).1
  asked := requestsOf m fs world op
  after := (fs.perform (some m) world op).2.1

theorem genuine_momentOf (m : Asset.Mount World) (fs : FileSystem) (world : World)
    (op : Operation) : (momentOf m fs world op).Genuine m :=
  ⟨(fs.perform (some m) world op).2.2, rfl, perform_logged m fs world [] op⟩

theorem watch_cons (m : Asset.Mount World) (fs : FileSystem) (world : World) (now : Time)
    (op : Operation) (script : List (Time × Operation)) :
    watch m fs world ((now, op) :: script) =
      momentOf m { fs with clock := now } world op ::
        watch m (momentOf m { fs with clock := now } world op).after
          (perform (some m) { fs with clock := now } world op).2.2 script := by
  rw [watch, perform_logged, List.nil_append]
  rfl

/-- An operation in a run begins on what is reachable, is recorded truly, and is followed by the run
    that goes on from it. -/
theorem watch_split (h : Reachable fs) (m : Asset.Mount World) {world : World}
    {script : List (Time × Operation)} {early late : List (Moment World)} {x : Moment World}
    (heq : watch m fs world script = early ++ x :: late) :
    Reachable x.before ∧ Reachable x.after ∧ x = momentOf m x.before x.world x.operation ∧
      ∃ world' script', late = watch m x.after world' script' := by
  induction script generalizing fs world early with
  | nil => exact absurd heq (by simp [watch])
  | cons entry script ih =>
    obtain ⟨now, op⟩ := entry
    have hafter : Reachable (momentOf m { fs with clock := now } world op).after :=
      (h.tick now).step (some m) world op
    rw [watch_cons] at heq
    cases early with
    | nil =>
      obtain ⟨hx, hlate⟩ := List.cons.inj heq
      subst hx
      exact ⟨h.tick now, hafter, rfl, _, _, hlate.symm⟩
    | cons first early => exact ih hafter (List.cons.inj heq).2

/-- A moment does to a file what its operation does. -/
theorem momentOf_keeps (h : Reachable fs) (m : Asset.Mount World) (world : World) (op : Operation)
    (hfile : (fs.bytesAt p).isSome) (htakes : ¬ (momentOf m fs world op).TakesAway p) :
    ((momentOf m fs world op).after.bytesAt p).isSome ∧
      (¬ (momentOf m fs world op).Rewrites p →
        (momentOf m fs world op).after.bytesAt p = fs.bytesAt p) := by
  obtain ⟨v, hv⟩ := h.shows
  rcases hv.bytesAt_perform hfile (some m) world op with hsame | ⟨hrewrites, hsome⟩ | hremoves
  · exact ⟨hsame ▸ hfile, fun _ => hsame⟩
  · exact ⟨hsome, fun hnot => absurd hrewrites hnot⟩
  · exact absurd hremoves htakes

/-- While no operation takes a file away it stays, and keeps its bytes if none rewrites it. -/
theorem watch_keeps (h : Reachable fs) (m : Asset.Mount World) {world : World}
    {script : List (Time × Operation)} {mid late : List (Moment World)} {y : Moment World}
    (heq : watch m fs world script = mid ++ y :: late) (hfile : (fs.bytesAt p).isSome)
    (hmid : ∀ z ∈ mid, ¬ z.TakesAway p) :
    (y.before.bytesAt p).isSome ∧
      ((∀ z ∈ mid, ¬ z.Rewrites p) → y.before.bytesAt p = fs.bytesAt p) := by
  induction mid generalizing fs world script with
  | nil =>
    cases script with
    | nil => exact absurd heq (by simp [watch])
    | cons entry script =>
      obtain ⟨now, op⟩ := entry
      rw [watch_cons] at heq
      obtain ⟨rfl, -⟩ := List.cons.inj heq
      exact ⟨hfile, fun _ => rfl⟩
  | cons z mid ih =>
    cases script with
    | nil => exact absurd heq (by simp [watch])
    | cons entry script =>
      obtain ⟨now, op⟩ := entry
      rw [watch_cons] at heq
      obtain ⟨rfl, hrest⟩ := List.cons.inj heq
      obtain ⟨hsome, hsame⟩ :=
        momentOf_keeps (h.tick now) m world op hfile (hmid _ List.mem_cons_self)
      obtain ⟨hy, hkept⟩ := ih ((h.tick now).step (some m) world op) hrest hsome
        fun z hz => hmid z (List.mem_cons_of_mem _ hz)
      refine ⟨hy, fun hrewrites => ?_⟩
      exact (hkept fun z hz => hrewrites z (List.mem_cons_of_mem _ hz)).trans
        (hsame (hrewrites _ List.mem_cons_self))

/-- The outcome of a fetch: the path is populated, or it is as if nothing had been mounted, or the
    operation fails. -/
theorem momentOf_answered (h : Reachable fs) {op : Operation} (hwants : Wants m fs op p) :
    (∀ bytes, (m.fetch world p.toString).1 = .ok bytes →
      Lays fs (momentOf m fs world op).after op p bytes ∨
        (momentOf m fs world op).after = fs ∧ ∃ e, (momentOf m fs world op).reply = .error e) ∧
    (∀ key, (m.fetch world p.toString).1 = .error (.notFound key) →
      (momentOf m fs world op).after = (op.goOn fs p).2 ∧
        (momentOf m fs world op).reply = (op.goOn fs p).1) ∧
    ∀ cause, (∀ key, cause ≠ .notFound key) → (m.fetch world p.toString).1 = .error cause →
      (momentOf m fs world op).after = fs ∧
        (momentOf m fs world op).reply = .error (.fetch p.toString cause) := by
  obtain ⟨v, hv⟩ := h.shows
  obtain ⟨text, -, -, htrailing, -, habsent⟩ := id hwants
  refine ⟨fun bytes hanswer => ?_, fun key hanswer => ?_, fun cause hcause hanswer => ?_⟩
  · have hdeliver : fs.deliver p (m.fetch world p.toString).1 = fs.placeFile p bytes := by
      rw [hanswer]
      rfl
    rcases hv.placeFile_absent htrailing habsent bytes with
      ⟨e, hrefused⟩ | ⟨nodes, hplaced, hpopulated⟩
    · have hperform := (perform_of_wants hv world hwants (hdeliver.trans hrefused)).1 e rfl
      refine Or.inr ⟨?_, e, ?_⟩
      · exact congrArg (fun out => out.2.1) hperform
      · exact congrArg (fun out => out.1) hperform
    · have hperform := (perform_of_wants hv world hwants (hdeliver.trans hplaced)).2 rfl
      have hafter : (momentOf m fs world op).after = (op.goOn (fs.withNodes nodes) p).2 :=
        congrArg (fun out => out.2.1) hperform
      rw [hafter]
      exact Or.inl (hpopulated.lays hv htrailing op)
  · have hdeliver : fs.deliver p (m.fetch world p.toString).1 = (.ok (), fs) := by
      rw [hanswer]
      rfl
    have hperform := (perform_of_wants hv world hwants hdeliver).2 rfl
    exact ⟨congrArg (fun out => out.2.1) hperform, congrArg (fun out => out.1) hperform⟩
  · have hdeliver : fs.deliver p (m.fetch world p.toString).1 =
        (.error (.fetch p.toString cause), fs) := by
      rw [hanswer]
      cases cause with
      | notFound key => exact absurd rfl (hcause key)
      | _ => rfl
    have hperform := (perform_of_wants hv world hwants hdeliver).1 _ rfl
    exact ⟨congrArg (fun out => out.2.1) hperform, congrArg (fun out => out.1) hperform⟩

theorem Lays.congr {before after : FileSystem} {op : Operation} {q : Path} {bytes : ByteArray}
    (h : Lays before after op q bytes) (hparts : q.parts = p.parts) :
    Lays before after op p bytes := by
  obtain ⟨parts, trailing, hproper, hroot⟩ := p
  obtain ⟨parts', trailing', hproper', hroot'⟩ := q
  cases hparts
  exact ⟨h.file, h.kept, h.made⟩

/-- What is asked is what is wanted. -/
theorem wants_of_asked (h : Reachable fs) {op : Operation}
    {request : String × Except Asset.Error ByteArray} (hmem : request ∈ requestsOf m fs world op) :
    ∃ p, Wants m fs op p ∧
      requestsOf m fs world op = [(p.toString, (m.fetch world p.toString).1)] := by
  obtain ⟨v, hv⟩ := h.shows
  obtain ⟨p, hwants⟩ := wants_of_mem_requestsOf hv hmem
  exact ⟨p, hwants, requestsOf_of_wants hv hwants⟩

theorem wants_of_asked_eq (h : Reachable fs) {op : Operation} {key : String}
    {answer : Except Asset.Error ByteArray} (hasked : requestsOf m fs world op = [(key, answer)]) :
    ∃ p, Wants m fs op p ∧ p.toString = key ∧ (m.fetch world p.toString).1 = answer := by
  obtain ⟨p, hwants, heq⟩ := wants_of_asked h (by rw [hasked]; exact List.mem_singleton_self _)
  rw [hasked, List.singleton_inj, Prod.mk.injEq] at heq
  exact ⟨p, hwants, heq.1.symm, heq.2.symm⟩

/-- A file that is there is not asked for. -/
theorem not_asked_of_bytesAt (h : Reachable fs) (m : Asset.Mount World) (world : World)
    (op : Operation) (hfile : (fs.bytesAt p).isSome) (answer : Except Asset.Error ByteArray) :
    (p.toString, answer) ∉ requestsOf m fs world op := by
  intro hmem
  obtain ⟨q, ⟨-, -, -, -, -, habsent⟩, heq⟩ := wants_of_asked h hmem
  rw [heq, List.mem_singleton, Prod.mk.injEq, Path.toString_inj] at hmem
  rw [bytesAt, Path.fileKey_inj.2 hmem.1, habsent.1] at hfile
  cases hfile

/-- What was fetched is what the file holds, unless the operation that fetched it rewrites it. -/
theorem bytesAt_of_asked (h : Reachable fs) {op : Operation} {bytes : ByteArray}
    (hasked : requestsOf m fs world op = [(p.toString, .ok bytes)])
    (hfile : ((momentOf m fs world op).after.bytesAt p).isSome)
    (hrewrites : ¬ op.Rewrites fs p) :
    (momentOf m fs world op).after.bytesAt p = some bytes := by
  obtain ⟨q, hwants, hkey, hanswer⟩ := wants_of_asked_eq h hasked
  have hparts := Path.toString_inj.1 hkey
  rcases (momentOf_answered h hwants).1 bytes hanswer with hlays | ⟨hsame, -⟩
  · rcases (hlays.congr hparts).file with hbytes | ⟨-, path, mode, rfl, htruncate⟩
    · exact hbytes
    · obtain ⟨text, hop, hq, -⟩ := hwants
      cases hop
      exact absurd ⟨htruncate, q, hq, hparts⟩ hrewrites
  · rw [hsame] at hfile
    refine absurd ?_ (not_asked_of_bytesAt h m world op hfile (.ok bytes))
    rw [hasked]
    exact List.mem_singleton_self _

/-- From an operation on, a file keeps its bytes as long as none rewrites it. -/
theorem watch_keeps_from (h : Reachable fs) (m : Asset.Mount World) {world : World}
    {script : List (Time × Operation)} {mid late first rest : List (Moment World)}
    {y z : Moment World} (heq : watch m fs world script = mid ++ y :: late)
    (hfile : (fs.bytesAt p).isSome) (hmid : ∀ z ∈ mid, ¬ z.TakesAway p)
    (hfirst : mid = first ++ z :: rest) (hrewrites : ∀ w ∈ rest, ¬ w.Rewrites p) :
    y.before.bytesAt p = z.after.bytesAt p := by
  subst hfirst
  rw [List.append_assoc, List.cons_append] at heq
  obtain ⟨hz, -⟩ := watch_keeps h m heq hfile fun w hw => hmid w (List.mem_append_left _ hw)
  obtain ⟨hbefore, hafter, hmoment, world', script', hrest⟩ := watch_split h m heq
  have htakes : ¬ (momentOf m z.before z.world z.operation).TakesAway p :=
    hmoment ▸ hmid z (List.mem_append_right _ List.mem_cons_self)
  have hsome := (momentOf_keeps hbefore m z.world z.operation hz htakes).1
  rw [← hmoment] at hsome
  exact (watch_keeps hafter m hrest.symm hsome fun w hw =>
    hmid w (List.mem_append_right _ (List.mem_cons_of_mem z hw))).2 hrewrites

/-- In a run of operations over a mount, whatever it answers, only what is touched and absent is
    fetched, what is fetched is put beside what is there, and it is not fetched again until it is
    unlinked or moved. -/
theorem Reachable.readThroughLaw (h : Reachable fs) (m : Asset.Mount World) (world : World)
    (script : List (Time × Operation)) : ReadThroughLaw m (watch m fs world script) := by
  have hsplit : ∀ x ∈ watch m fs world script,
      Reachable x.before ∧ x = momentOf m x.before x.world x.operation := by
    intro x hx
    obtain ⟨early, late, heq⟩ := List.append_of_mem hx
    obtain ⟨hbefore, -, hmoment, -⟩ := watch_split h m heq
    exact ⟨hbefore, hmoment⟩
  constructor
  case faithful =>
    intro x hx
    rw [(hsplit x hx).2]
    exact genuine_momentOf m x.before x.world x.operation
  case asked =>
    intro x hx p hwants
    obtain ⟨hbefore, hmoment⟩ := hsplit x hx
    obtain ⟨v, hv⟩ := hbefore.shows
    rw [hmoment]
    exact requestsOf_of_wants hv hwants
  case only =>
    intro x hx request hmem
    obtain ⟨hbefore, hmoment⟩ := hsplit x hx
    rw [hmoment] at hmem ⊢
    exact wants_of_asked hbefore hmem
  case laid =>
    intro x hx p bytes hasked
    obtain ⟨hbefore, hmoment⟩ := hsplit x hx
    rw [hmoment] at hasked ⊢
    obtain ⟨q, hwants, hkey, hanswer⟩ := wants_of_asked_eq hbefore hasked
    exact ((momentOf_answered hbefore hwants).1 bytes hanswer).imp_left fun hlays =>
      hlays.congr (Path.toString_inj.1 hkey)
  case missing =>
    intro x hx key key' hasked
    obtain ⟨hbefore, hmoment⟩ := hsplit x hx
    obtain ⟨v, hv⟩ := hbefore.shows
    rw [hmoment] at hasked ⊢
    obtain ⟨q, hwants, -, hanswer⟩ := wants_of_asked_eq hbefore hasked
    obtain ⟨hafter, hreply⟩ := (momentOf_answered hbefore hwants).2.1 key' hanswer
    rw [hafter, hreply]
    exact ⟨perform_none_of_wants hwants, goOn_absent hv hwants⟩
  case failed =>
    intro x hx key cause hcause hasked
    obtain ⟨hbefore, hmoment⟩ := hsplit x hx
    rw [hmoment] at hasked ⊢
    obtain ⟨q, hwants, hkey, hanswer⟩ := wants_of_asked_eq hbefore hasked
    obtain ⟨hafter, hreply⟩ := (momentOf_answered hbefore hwants).2.2 cause hcause hanswer
    exact ⟨hafter, hkey ▸ hreply⟩
  case stays =>
    intro early x mid y late heq p bytes hasked hfile hmid
    obtain ⟨hbefore, hafter, hmoment, world', script', hrest⟩ := watch_split h m heq
    rw [isFile_eq_isSome] at hfile
    obtain ⟨hsome, hsame⟩ := watch_keeps hafter m hrest.symm hfile hmid
    have hheq : watch m fs world script = (early ++ x :: mid) ++ y :: late := by
      rw [heq, List.append_assoc, List.cons_append]
    obtain ⟨hy, hmomentY⟩ := hsplit y (by rw [hheq]; simp)
    refine ⟨?_, ?_, ?_⟩
    · intro answer
      rw [hmomentY]
      exact not_asked_of_bytesAt hy m y.world y.operation hsome answer
    · obtain ⟨data, hdata⟩ := Option.isSome_iff_exists.1 hsome
      refine ⟨data, hdata, fun text hread htext => ?_, fun hrewrites => ?_⟩
      · rw [hmomentY, momentOf, hread]
        exact perform_readAll_of_bytesAt hdata htext y.world
      · have hkept := hsame fun z hz => hrewrites z (List.mem_cons_of_mem _ hz)
        have hx : ¬ x.Rewrites p := hrewrites x List.mem_cons_self
        rw [hmoment] at hasked hfile
        have hbytes := bytesAt_of_asked hbefore hasked hfile hx
        rw [← hmoment, ← hkept, hdata] at hbytes
        exact Option.some.inj hbytes
    · intro first z rest hfirst hrewrites
      cases first with
      | nil =>
        obtain ⟨rfl, rfl⟩ := List.cons.inj hfirst
        exact hsame hrewrites
      | cons _ first =>
        exact watch_keeps_from hafter m hrest.symm hfile hmid (List.cons.inj hfirst).2 hrewrites

/-- A mount with one asset. -/
def oneAsset : Asset.Mount Unit where
  roots := ["/lib/"]
  fetch _ key := (if key = "/lib/a" then .ok "x".toUTF8 else .error (.notFound key), ())

/-- The asset is fetched once although it is touched twice, and again after it was unlinked. -/
theorem readThroughLaw_oneAsset :
    ReadThroughLaw oneAsset (watch oneAsset (empty ⟨0, 0⟩) () [(⟨1, 0⟩, .readAll "/lib/a"),
      (⟨2, 0⟩, .stat "/lib/a"), (⟨3, 0⟩, .unlink "/lib/a"), (⟨4, 0⟩, .stat "/lib/a")]) ∧
    (watch oneAsset (empty ⟨0, 0⟩) () [(⟨1, 0⟩, .readAll "/lib/a"), (⟨2, 0⟩, .stat "/lib/a"),
      (⟨3, 0⟩, .unlink "/lib/a"), (⟨4, 0⟩, .stat "/lib/a")]).map (·.asked) =
        [[("/lib/a", .ok "x".toUTF8)], [], [], [("/lib/a", .ok "x".toUTF8)]] :=
  ⟨Reachable.readThroughLaw (.new ⟨0, 0⟩) oneAsset () _, rfl⟩

/-- A fetch changes the directory above the file, which was there. Opening to create makes the file
    that the mount does not have, so that the next touch does not ask for it. -/
theorem fetch_changes_directory :
    ∃ times fetched created looked, watch oneAsset (empty ⟨0, 0⟩) ()
        [(⟨9, 0⟩, .setTimes "/" ⟨5, 0⟩ ⟨5, 0⟩), (⟨9, 0⟩, .readAll "/lib/a"),
          (⟨9, 0⟩, .openPath "/lib/b" (.ofBits 0o101)), (⟨9, 0⟩, .stat "/lib/b")] =
        [times, fetched, created, looked] ∧
      fetched.asked = [("/lib/a", .ok "x".toUTF8)] ∧
      fetched.before.nodes.get? "/" = some (.dir [] ⟨⟨5, 0⟩, ⟨5, 0⟩, ⟨0, 0⟩⟩) ∧
      fetched.after.nodes.get? "/" = some (.dir ["lib"] ⟨⟨5, 0⟩, ⟨9, 0⟩, ⟨0, 0⟩⟩) ∧
      created.asked = [("/lib/b", .error (.notFound "/lib/b"))] ∧
      (created.before.nodes.get? "/lib/b").isSome = false ∧
      (created.after.nodes.get? "/lib/b").isSome = true ∧
      looked.asked = [] :=
  ⟨_, _, _, _, rfl, rfl, rfl, rfl, rfl, rfl, rfl, rfl⟩

end FileSystem

end Workbench
