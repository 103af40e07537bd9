import Workbench.Proofs.Relocation

set_option autoImplicit false

/-! # Descriptors follow what they are open on

A descriptor keeps a path and not the node at it. What is said here makes the two the same as long
as the node is there: whatever is done, other than closing the descriptor or removing its node, the
node is where the path of the descriptor leads afterwards, since the move that takes a node along
takes the paths of descriptors along in the same way. The bytes that are read through it are changed
by those operations alone that are aimed at them. -/

namespace Workbench.FileSystem

variable {World : Type} {v : View} {fs fs' : FileSystem} {op : Operation} {p q : Path} {n : Nat}
  {d : Descriptor}

/-- There is a directory, or a file, at a path. -/
def Has (fs : FileSystem) (p : Path) (dir : Bool) : Prop :=
  (if dir then fs.isDir p else fs.isFile p) = true

instance (fs : FileSystem) (p : Path) (dir : Bool) : Decidable (fs.Has p dir) :=
  inferInstanceAs (Decidable (_ = true))

/-- An operation is to put other bytes into the file at a path: through a descriptor that is open
    on it, or by naming it. -/
def Operation.Alters (fs : FileSystem) (p : Path) : Operation → Prop
  | .openPath path mode => mode.truncate = true ∧ fs.Names path p
  | .write number _ _ | .truncateDescriptor number _ =>
    ∃ d, fs.descriptors.get? number = some d ∧ d.isDir = false ∧ d.path.parts = p.parts
  | .truncate path _ | .writeFile path _ => fs.Names path p
  | _ => False

/-- A descriptor is still open on what it was open on, wherever that is now. -/
structure Followed (fs fs' : FileSystem) (op : Operation) (n : Nat) (d d' : Descriptor) :
    Prop where
  found : fs'.descriptors.get? n = some d'
  mode : d'.mode = d.mode
  isDir : d'.isDir = d.isDir
  cursor : ¬ op.Transfers n → d'.cursor = d.cursor
  place : d'.path.parts = op.destination fs d.path.parts
  present : fs'.Has d'.path d'.isDir
  shown : ∃ stat, fs'.statDescriptor n = .ok stat ∧ stat.isDir = d.isDir
  /-- What is in a directory comes along. -/
  below : ∀ (p q : Path) (dir : Bool), d.path.parts <+: p.parts → fs.Has p dir →
    ¬ op.Ends fs p dir → q.parts = op.destination fs p.parts → fs'.Has q dir
  bytes : d.isDir = false → ¬ op.Alters fs d.path → fs'.bytesAt d'.path = fs.bytesAt d.path

/-! ## What is there -/

namespace Shows

theorem parts_ne_nil_of_has (h : fs.Shows v) (hhas : fs.Has p false) : p.parts ≠ [] :=
  h.parts_ne_nil_of_bytesAt (by rw [← isFile_eq_isSome]; exact hhas)

/-- What is at a path is under its key. -/
theorem has_iff (h : fs.Shows v) {dir : Bool} (hp : dir = false → p.parts ≠ []) :
    fs.Has p dir ↔ (fs.nodes.get? (p.key dir)).isSome := by
  rw [h.table.get?_key p dir hp, Option.isSome_filter, Has]
  cases dir with
  | true =>
    rw [if_pos rfl, h.table.isDir_eq]
    cases v p.parts with
    | none => simp
    | some node => cases node <;> simp [Node.isDir]
  | false =>
    rw [if_neg Bool.false_ne_true, h.table.isFile_eq]
    cases v p.parts with
    | none => simp
    | some node => cases node <;> simp [Node.isDir, Node.isFile]

theorem isSome_of_has (h : fs.Shows v) {dir : Bool} (hhas : fs.Has p dir) :
    (v p.parts).isSome := by
  cases dir with
  | true =>
    rw [Has, if_pos rfl, h.table.isDir_eq] at hhas
    obtain ⟨node, hv, -⟩ := (Option.any_eq_true _ _).1 hhas
    exact hv ▸ Option.isSome_some
  | false =>
    rw [Has, if_neg Bool.false_ne_true, h.table.isFile_eq] at hhas
    obtain ⟨node, hv, -⟩ := (Option.any_eq_true _ _).1 hhas
    exact hv ▸ Option.isSome_some

theorem destination_ne_nil (h : fs.Shows v) (op : Operation) {place : List String}
    (hplace : place ≠ []) : op.destination fs place ≠ [] := by
  cases op with
  | rename source target =>
    have hcases := h.rename_cases source target
    rw [Operation.destination]
    generalize fs.rename source target = outcome at hcases ⊢
    cases hcases with
    | refused e _ => exact hplace
    | idle s t hs ht _ hst =>
      rw [hs, ht]
      dsimp only
      split
      · next hpre =>
        rw [← hst, List.prefix_iff_eq_append.1 hpre]
        exact hplace
      · exact hplace
    | moved s t node nodes table hs ht hmovable _ _ _ =>
      rw [hs, ht]
      dsimp only
      split
      · exact List.append_ne_nil_of_left_ne_nil hmovable.target_ne _
      · exact hplace
  | _ => exact hplace

/-- What is there goes where it is taken, unless it is removed. -/
theorem has_perform (h : fs.Shows v) {v' : View} (mount : Option (Asset.Mount World))
    (world : World) (op : Operation) (h' : (fs.perform mount world op).2.1.Shows v') {dir : Bool}
    (hhas : fs.Has p dir) (hkept : ¬ op.Ends fs p dir)
    (hq : q.parts = op.destination fs p.parts) : (fs.perform mount world op).2.1.Has q dir := by
  have hp : dir = false → p.parts ≠ [] := by
    rintro rfl
    exact h.parts_ne_nil_of_has hhas
  have hqne : dir = false → q.parts ≠ [] := fun hdir =>
    hq ▸ h.destination_ne_nil op (hp hdir)
  rw [h'.has_iff hqne]
  exact h.node_perform mount world op hp ((h.has_iff hp).1 hhas) hkept hq

/-! ## Bytes -/

/-- Nothing is written through a descriptor of a directory. -/
theorem bytes_of_not_alters (h : fs.Shows v) (hseated : Seated fs)
    (mount : Option (Asset.Mount World)) (world : World) (op : Operation)
    (hfile : fs.Has p false) (hkept : ¬ op.Ends fs p false) (hsame : ¬ op.Alters fs p)
    (hq : q.parts = op.destination fs p.parts) :
    (fs.perform mount world op).2.1.bytesAt q = fs.bytesAt p := by
  have hsome : (fs.bytesAt p).isSome := by
    rw [← isFile_eq_isSome]
    exact hfile
  by_cases hrewrites : op.Rewrites fs p
  · -- only a directory can be open at the path, and its descriptor is not for writing
    have hunwritable : ∀ {number d}, fs.descriptors.get? number = some d →
        d.path.parts = p.parts → (∀ d, fs.descriptors.get? number = some d →
          d.isDir = false → d.path.parts ≠ p.parts) → d.mode.writable = false := by
      intro number d hd hparts hnone
      refine (hseated.suited number d hd).dir ?_
      by_contra hdir
      exact hnone d hd (Bool.not_eq_true _ ▸ hdir) hparts
    cases op with
    | write number bytes position =>
      obtain ⟨d, hd, hparts⟩ := hrewrites
      have hmode := hunwritable hd hparts fun d hd hdir hparts => hsame ⟨d, hd, hdir, hparts⟩
      rw [FileSystem.perform]
      split
      · next n fs' hwrite =>
        cases (written_of_write hwrite).2 with
        | stdout => exact bytesAt_eq_of_parts _ hq
        | stderr => exact bytesAt_eq_of_parts _ hq
        | file d' data times offset _ hd' hwritable =>
          cases hd.symm.trans hd'
          cases hmode.symm.trans hwritable
      · exact bytesAt_eq_of_parts fs hq
    | truncateDescriptor number length =>
      obtain ⟨d, hd, hparts⟩ := hrewrites
      have hmode := hunwritable hd hparts fun d hd hdir hparts => hsame ⟨d, hd, hdir, hparts⟩
      rw [FileSystem.perform]
      cases htruncate : fs.truncateDescriptor number length with
      | error e => exact bytesAt_eq_of_parts fs hq
      | ok fs' =>
        obtain ⟨d', data, times, hd', hwritable, -⟩ := truncateDescriptor_eq_ok_iff.1 htruncate
        cases hd.symm.trans hd'
        cases hmode.symm.trans hwritable
    | _ => exact absurd hrewrites hsame
  · exact h.bytes_perform mount world op hsome hkept hrewrites hq

end Shows

/-! ## Standard streams -/

/-- What is aimed at a standard stream leaves every node as it is. -/
theorem nodes_perform_of_stream (hnumbered : Numbered fs) (hstream : op.number? = some n)
    (hn : n < firstDescriptor) (mount : Option (Asset.Mount World)) (world : World) :
    (fs.perform mount world op).2.1.nodes = fs.nodes := by
  have hnone : fs.descriptor n = .error (.badDescriptor n) := by
    have hmem : n ∉ fs.descriptors.keys := fun hmem => Nat.not_le.2 hn (hnumbered.mem n hmem)
    rw [Dictionary.mem_keys_iff, Option.not_isSome_iff_eq_none] at hmem
    rw [descriptor, hmem]
  cases op with
  | close number =>
    obtain rfl := Option.some.inj hstream
    rw [perform, close, if_pos hn]
    rfl
  | read number length position =>
    obtain rfl := Option.some.inj hstream
    show (fs.read number length position).2.nodes = fs.nodes
    rw [read, readableDescriptor, hnone]
    split <;> rfl
  | write number bytes position =>
    obtain rfl := Option.some.inj hstream
    rw [perform, write, hnone]
    split_ifs <;> rfl
  | statDescriptor number => rfl
  | truncateDescriptor number length =>
    obtain rfl := Option.some.inj hstream
    rw [perform, truncateDescriptor, hnone]
    rfl
  | _ => cases hstream

/-! ## Descriptors -/

/-- A descriptor shows what is under the key of its path. -/
theorem statDescriptor_eq (hn : firstDescriptor ≤ n) (hd : fs.descriptors.get? n = some d) :
    fs.statDescriptor n = match fs.nodes.get? (d.path.key d.isDir) with
      | some node => .ok (statOf node)
      | none => .error (.notFound d.path.toString) := by
  have hfound : fs.descriptor n = .ok d := by rw [descriptor, hd]
  rw [statDescriptor, if_neg (Nat.not_lt.2 hn), hfound]
  rfl

/-- Through a descriptor of what is there, what is there is shown. -/
theorem Shows.statDescriptor_isDir (h : fs.Shows v) (hnumbered : Numbered fs)
    (hd : fs.descriptors.get? n = some d) (hhas : fs.Has d.path d.isDir) :
    ∃ stat, fs.statDescriptor n = .ok stat ∧ stat.isDir = d.isDir := by
  have hn := hnumbered.mem n ((Dictionary.mem_keys_iff _ _).2 (by rw [hd]; rfl))
  have hp : d.isDir = false → d.path.parts ≠ [] := fun hdir =>
    h.parts_ne_nil_of_has (hdir ▸ hhas)
  obtain ⟨node, hnode⟩ := Option.isSome_iff_exists.1 ((h.has_iff hp).1 hhas)
  rw [statDescriptor_eq hn hd, hnode]
  refine ⟨statOf node, rfl, ?_⟩
  rw [h.table.get?_key _ _ hp, Option.filter_eq_some_iff, beq_iff_eq] at hnode
  rw [← hnode.2]
  cases node <;> rfl

/-- A descriptor of what is there stays on it through any operation that neither closes it nor
    removes what it is open on. -/
theorem Reachable.followed (h : Reachable fs) (hd : fs.descriptors.get? n = some d)
    (hhas : fs.Has d.path d.isDir) (mount : Option (Asset.Mount World)) (world : World)
    (op : Operation) (hopen : op ≠ .close n) (hkept : ¬ op.Ends fs d.path d.isDir) :
    ∃ d', Followed fs (fs.perform mount world op).2.1 op n d d' := by
  obtain ⟨v, hv⟩ := h.shows
  have h' := h.step mount world op
  obtain ⟨v', hv'⟩ := h'.shows
  obtain ⟨d', hd'⟩ := h.seated.kept (hv.tableStep mount world op) hd hopen
  have hplace : d'.path.parts = op.destination fs d.path.parts :=
    hd'.place.trans (hv.follow_eq_destination op (hv.isSome_of_has hhas))
  have hpresent : (fs.perform mount world op).2.1.Has d'.path d'.isDir :=
    hv.has_perform mount world op hv' (hd'.isDir ▸ hhas) (hd'.isDir ▸ hkept) hplace
  refine ⟨d', hd'.found, hd'.mode, hd'.isDir, hd'.cursor, hplace, hpresent, ?_, ?_, ?_⟩
  · rw [← hd'.isDir]
    exact hv'.statDescriptor_isDir h'.numbered hd'.found hpresent
  · exact fun p q dir _ hthere hstays hq =>
      hv.has_perform mount world op hv' hthere hstays hq
  · intro hfile hsame
    rw [hfile] at hhas hkept
    exact hv.bytes_of_not_alters h.seated mount world op hhas hkept hsame hplace

/-- As long as a counter of 32 bits has numbers for them, descriptors follow what they are open on and
    their numbers are never handed out twice; and the standard streams are no files. -/
theorem History.descriptors_follow {log : List (Operation × Except Error Reply)}
    (h : History fs log) (hbound : (numbersOf log).length < Nat.pow 2 32 - 3) :
    (wordCounter (numbersOf log).length).toNat = fs.nextDescriptor ∧
    (∀ n d, fs.descriptors.get? n = some d → fs.Has d.path d.isDir →
      ∀ {World : Type} (mount : Option (Asset.Mount World)) (world : World) (op : Operation),
        op ≠ .close n → ¬ op.Ends fs d.path d.isDir →
        ∃ d', Followed fs (fs.perform mount world op).2.1 op n d d') ∧
    ((numbersOf log).Nodup ∧ ∀ n ∈ numbersOf log, 3 ≤ n ∧ n < Nat.pow 2 32) ∧
    ∀ n < 3, ∀ {World : Type} (mount : Option (Asset.Mount World)) (world : World)
      (op : Operation), op.number? = some n → (fs.perform mount world op).2.1.nodes = fs.nodes := by
  have hreachable := h.reachable
  obtain ⟨hrange, hnext⟩ := h.numbers
  have hfull : firstDescriptor + (numbersOf log).length < Nat.pow 2 32 := by
    rw [firstDescriptor]
    omega
  refine ⟨(toNat_wordCounter hfull).trans hnext.symm, fun n d hd hhas World mount world op =>
    hreachable.followed hd hhas mount world op, ⟨?_, fun n hn => ?_⟩,
    fun n hn World mount world op hstream =>
      nodes_perform_of_stream hreachable.numbered hstream hn mount world⟩
  · rw [hrange]
    exact List.nodup_range'
  · rw [hrange, List.mem_range'_1] at hn
    exact ⟨hn.1, hn.2.trans hfull⟩

/-- A directory that is open, a file open in it, and a file whose name begins with that of a
    directory above both. -/
def siblings : FileSystem :=
  (performAll none (empty ⟨0, 0⟩) () [.writeFile "/a/d/f" "f".toUTF8, .writeFile "/ab" "ab".toUTF8,
    .openPath "/a/d/f" (.ofBits 0o2), .openPath "/ab" .readOnly, .openPath "/a/d" .readOnly]).2.1

/-- Moving a directory takes along what is open below it, and nothing of which only the name begins
    as its own. -/
theorem descriptors_follow_siblings :
    ∃ d₃ d₄ d₅,
      Followed siblings (siblings.perform none () (.rename "/a" "/c")).2.1 (.rename "/a" "/c") 3
        ⟨⟨["a", "d", "f"], false, by decide, by decide⟩, .ofBits 0o2, 0, false⟩ d₃ ∧
      Followed siblings (siblings.perform none () (.rename "/a" "/c")).2.1 (.rename "/a" "/c") 4
        ⟨⟨["ab"], false, by decide, by decide⟩, .readOnly, 0, false⟩ d₄ ∧
      Followed siblings (siblings.perform none () (.rename "/a" "/c")).2.1 (.rename "/a" "/c") 5
        ⟨⟨["a", "d"], false, by decide, by decide⟩, .readOnly, 0, true⟩ d₅ ∧
      d₃.path.parts = ["c", "d", "f"] ∧ d₄.path.parts = ["ab"] ∧ d₅.path.parts = ["c", "d"] := by
  obtain ⟨-, hfollow, -, -⟩ := History.descriptors_follow
    ((History.new ⟨0, 0⟩).performAll none [.writeFile "/a/d/f" "f".toUTF8,
      .writeFile "/ab" "ab".toUTF8, .openPath "/a/d/f" (.ofBits 0o2), .openPath "/ab" .readOnly,
      .openPath "/a/d" .readOnly] ()) (by decide +kernel)
  have hmove : ∀ n, Operation.rename "/a" "/c" ≠ .close n := fun n heq => by cases heq
  obtain ⟨d₃, h₃⟩ := hfollow 3 ⟨⟨["a", "d", "f"], false, by decide, by decide⟩, .ofBits 0o2, 0, false⟩
    (by decide +kernel) (by decide +kernel) none () _ (hmove 3) id
  obtain ⟨d₄, h₄⟩ := hfollow 4 ⟨⟨["ab"], false, by decide, by decide⟩, .readOnly, 0, false⟩
    (by decide +kernel) (by decide +kernel) none () _ (hmove 4) id
  obtain ⟨d₅, h₅⟩ := hfollow 5 ⟨⟨["a", "d"], false, by decide, by decide⟩, .readOnly, 0, true⟩
    (by decide +kernel) (by decide +kernel) none () _ (hmove 5) id
  exact ⟨d₃, d₄, d₅, h₃, h₄, h₅, h₃.place.trans (by decide +kernel),
    h₄.place.trans (by decide +kernel), h₅.place.trans (by decide +kernel)⟩

end Workbench.FileSystem
