import Ost.Osdfs.LinkCalls

/-!
# Runs that keep the link counts

A system call looks its names up, calls a function of the file system, and leaves the dentries as
the result says.  Each of them keeps the invariant if nothing goes wrong, so a run of such calls
does.
-/

namespace Ost.Osdfs

open Ost.Prog

/-! ## The calls -/

section Calls

variable {s : Fs} {n : Inode} {e : LinkEvent} {out : Outcomes} {dir ino : Nat} {name : Name}
  {kind : Kind}

/-- A call that reports success has made what it should. -/
def Made (e : LinkEvent) (s : Fs) : Prop :=
  s.rc = 0 →
    match e.call with
    | .mknod dir name _ | .mkdir dir name | .symlink dir name | .link _ _ dir name =>
      ∃ ino, (dir, ⟨name, ino⟩) ∈ s.links
    | _ => True

/-- `osdfs_mknod` makes an entry, or nothing. -/
theorem Fs.Sound.mknod (h : s.Sound) (hfree : s.Free dir name)
    (hcond : out.iget = true → s.Creates out dir name kind) :
    (∃ s' : Fs, osdfsMknod out dir name kind s = .ret 0 s' ∧ s'.Sound ∧
      ∃ ino, (dir, ⟨name, ino⟩) ∈ s'.links) ∨
    (out.iget = false ∧ osdfsMknod out dir name kind s = .ret eNoSpc s) := by
  obtain ⟨hd, hname, hnone⟩ := hfree
  obtain ⟨n, hn, rfl, hdir, hlive⟩ := h.exists_dir hd
  cases higet : out.iget with
  | true =>
    obtain ⟨s', hrun, hs', hlink⟩ :=
      Fs.mknod_spec h hn hdir hlive hname hnone higet (hcond higet)
    exact .inl ⟨s', hrun, hs', _, hlink⟩
  | false =>
    refine .inr ⟨rfl, ?_⟩
    rw [osdfsMknod, bind_apply]
    change (if out.iget = true then _ else _ : Prog Fault Fs Int) s = _
    rw [higet, if_neg Bool.false_ne_true]
    rfl

theorem Fs.mem_bury (s : Fs) (hkind : (s.inode ino).kind = .directory) :
    ino ∈ (s.bury ino).dead := by
  rw [Fs.bury, if_pos hkind]
  exact List.mem_cons_self

theorem Fs.dead_bury (s : Fs) (ino : Nat) {i : Nat} (hi : i ∈ s.dead) : i ∈ (s.bury ino).dead := by
  rw [Fs.bury]
  split
  · exact List.mem_cons_of_mem _ hi
  · exact hi

/-- The call comes to an end, keeps the invariant and makes what it reports. -/
def Fs.Steps (s : Fs) (e : LinkEvent) : Prop :=
  ∃ s', linkNext e s = .ret ⟨⟩ s' ∧ s'.Sound ∧ Made e s'

theorem steps_mknod (h : s.Sound) (hfree : s.Free dir name)
    (hcond : out.iget = true → s.Creates out dir name kind) :
    s.Steps ⟨.mknod dir name kind, out⟩ := by
  rw [Fs.Steps]
  change ∃ s', (osdfsMknod out dir name kind >>= _ : Prog Fault Fs PUnit) s = _ ∧ _
  rw [bind_apply]
  rcases h.mknod hfree hcond with ⟨s', hrun, hs', hlink⟩ | ⟨-, hrun⟩
  · rw [hrun]
    exact ⟨_, rfl, hs'.setRc 0, fun _ => hlink⟩
  · rw [hrun]
    exact ⟨_, rfl, h.setRc eNoSpc, fun hrc => absurd hrc (show eNoSpc ≠ 0 by decide)⟩

theorem steps_mkdir (h : s.Sound) (hfree : s.Free dir name) (higet : out.iget = true)
    (hcond : s.Creates out dir name .directory) : s.Steps ⟨.mkdir dir name, out⟩ := by
  rcases h.mknod hfree fun _ => hcond with ⟨s', hrun, hs', hlink⟩ | ⟨hno, -⟩
  · have hmkdir : osdfsMkdir out dir name s = .ret 0 s' := by
      rw [osdfsMkdir, bind_apply, hrun]
      rfl
    refine ⟨{ s' with rc := 0 }, ?_, hs'.setRc 0, fun _ => hlink⟩
    change (osdfsMkdir out dir name >>= _ : Prog Fault Fs PUnit) s = _
    rw [bind_apply, hmkdir]
    rfl
  · rw [higet] at hno
    exact absurd hno.symm Bool.false_ne_true

theorem steps_symlink (h : s.Sound) (hfree : s.Free dir name)
    (hcond : out.iget = true → s.Creates out dir name .symlink) :
    s.Steps ⟨.symlink dir name, out⟩ := by
  rw [Fs.Steps]
  change ∃ s', (osdfsSymlink out dir name >>= _ : Prog Fault Fs PUnit) s = _ ∧ _
  rcases h.mknod hfree hcond with ⟨s', hrun, hs', hlink⟩ | ⟨-, hrun⟩
  · have hsym : osdfsSymlink out dir name s = .ret (if out.symlink then 0 else -1) s' := by
      rw [osdfsSymlink, bind_apply, hrun]
      cases out.symlink <;> rfl
    rw [bind_apply, hsym]
    exact ⟨_, rfl, hs'.setRc _, fun _ => hlink⟩
  · have hsym : osdfsSymlink out dir name s = .ret (-1) s := by
      rw [osdfsSymlink, bind_apply, hrun]
      rfl
    rw [bind_apply, hsym]
    exact ⟨_, rfl, h.setRc (-1), fun hrc => absurd hrc (show (-1 : Int) ≠ 0 by decide)⟩

/-- A directory is not linked. -/
theorem steps_link (h : s.Sound) {oldDir : Nat} {oldName : Name} (hd : s.IsDir oldDir)
    (hold : s.resolve oldDir oldName ≠ none) (hfree : s.Free dir name)
    (hcond : ∀ ino ∈ s.resolve oldDir oldName, (s.inode ino).kind = .directory) :
    s.Steps ⟨.link oldDir oldName dir name, out⟩ := by
  obtain ⟨n, hn, rfl, hdir, -⟩ := h.exists_dir hd
  obtain ⟨m, hm, rfl, hdir', -⟩ := h.exists_dir hfree.1
  obtain ⟨ino, hino⟩ := Option.ne_none_iff_exists'.mp hold
  have hkind := hcond ino hino
  rw [h.resolve_eq hn hdir _] at hino
  obtain ⟨ds, hrun, hs₁⟩ := h.dget_run hn hdir oldName
  obtain ⟨ds', hrun', hs₂⟩ := hs₁.dget_run hm hdir' name
  refine ⟨{ s with dentries := ds', rc := ePerm }, ?_, hs₂.setRc ePerm,
    fun hrc => absurd hrc (show ePerm ≠ 0 by decide)⟩
  change (dget n.ino oldName >>= _ : Prog Fault Fs PUnit) s = _
  rw [bind_apply, hrun, hino]
  change (dget m.ino name >>= _ : Prog Fault Fs PUnit) _ = _
  rw [bind_apply, hrun']
  have hlink : osdfsLink out ino m.ino name (m.dir.lookup name) { s with dentries := ds' } =
      .ret ePerm { s with dentries := ds' } := by
    change (if (s.inode ino).kind = .directory then _ else _ : Prog Fault Fs Int) _ = _
    rw [if_pos hkind]
    rfl
  change (osdfsLink out ino m.ino name (m.dir.lookup name) >>= _ : Prog Fault Fs PUnit) _ = _
  rw [bind_apply, hlink]
  rfl

theorem steps_unlink (h : s.Sound) (hd : s.IsDir dir) (hfound : s.resolve dir name ≠ none)
    (hcond : ∀ ino ∈ s.resolve dir name, s.Unlinks out dir name ino) :
    s.Steps ⟨.unlink dir name, out⟩ := by
  obtain ⟨n, hn, rfl, hdir, hlive⟩ := h.exists_dir hd
  obtain ⟨ino, hino⟩ := Option.ne_none_iff_exists'.mp hfound
  have hunlinks := hcond ino hino
  have he := h.resolve_some hn hdir hino
  rw [h.resolve_eq hn hdir _] at hino
  obtain ⟨ds, hrun, hs₁⟩ := h.dget_run hn hdir name
  rw [Fs.Steps]
  change ∃ s', (dget n.ino name >>= _ : Prog Fault Fs PUnit) s = _ ∧ _
  rw [bind_apply, hrun, hino]
  change ∃ s', (osdfsUnlink out n.ino name ino >>= _ : Prog Fault Fs PUnit) _ = _ ∧ _
  rw [bind_apply]
  rcases hs₁.balanced.unlink_spec hn hdir hlive he hunlinks with ⟨-, t, hunlink, ht⟩ | ⟨-, hunlink⟩
  · rw [hunlink]
    refine ⟨{ (t.bury ino).drop n.ino name with rc := 0 }, rfl, ?_, fun _ => trivial⟩
    refine hs₁.after ht.frame ht.balanced rfl rfl rfl (fun x hx => ?_) (fun i hi hkind hold => ?_)
      fun i hi => ?_
    · obtain ⟨hx, hkey⟩ := List.mem_filter.mp hx
      change x ∈ t.dentries at hx
      rw [ht.frame.dentries] at hx
      rcases List.mem_cons.mp (ht.links.mem_iff.mp (hs₁.cached x hx)) with heq | hlink
      · obtain ⟨hdir', hentry⟩ := Prod.mk.inj heq
        obtain ⟨hname, -⟩ := DirEntry.mk.inj hentry
        exact absurd ⟨hdir', hname⟩ (of_decide_eq_true hkey)
      · exact hlink
    · rw [ht.removed] at hi
      rcases List.mem_cons.mp hi with rfl | hi
      · exact t.mem_bury hkind
      · exact absurd hi hold
    · refine t.dead_bury ino ?_
      rw [ht.frame.dead]
      exact hi
  · rw [hunlink]
    exact ⟨_, rfl, hs₁.setRc eNotEmpty, fun _ => trivial⟩

theorem steps_rename (h : s.Sound) {oldDir newDir : Nat} {oldName newName : Name}
    (hd : s.IsDir oldDir) (hd' : s.IsDir newDir) (hname : NameOk newName)
    (hold : s.resolve oldDir oldName ≠ none)
    (hne : s.resolve newDir newName ≠ s.resolve oldDir oldName)
    (hcond : ∀ ino ∈ s.resolve oldDir oldName,
      s.Renames out oldDir oldName newDir newName ino (s.resolve newDir newName)) :
    s.Steps ⟨.rename oldDir oldName newDir newName, out⟩ := by
  obtain ⟨n, hn, rfl, hdir, hlive⟩ := h.exists_dir hd
  obtain ⟨m, hm, rfl, hdir', hlive'⟩ := h.exists_dir hd'
  obtain ⟨old, hino⟩ := Option.ne_none_iff_exists'.mp hold
  have hrenames := hcond old hino
  have he := h.resolve_some hn hdir hino
  have hsome : ∀ ino ∈ s.resolve m.ino newName, ⟨newName, ino⟩ ∈ m.dir.entries :=
    fun ino hino => h.resolve_some hm hdir' hino
  have hnone : s.resolve m.ino newName = none → ∀ e ∈ m.dir.entries, e.name ≠ newName :=
    h.resolve_none hm hdir'
  rw [hino] at hne
  rw [h.resolve_eq hn hdir _] at hino
  rw [h.resolve_eq hm hdir' _] at hrenames hsome hnone hne
  obtain ⟨ds, hrun, hs₁⟩ := h.dget_run hn hdir oldName
  obtain ⟨ds', hrun', hs₂⟩ := hs₁.dget_run hm hdir' newName
  generalize m.dir.lookup newName = target at *
  obtain ⟨t, hrename, hbal, hframe, hremoved, hlink, hlinks⟩ := hs₂.balanced.rename_spec
    hn hdir hlive he hm hdir' hlive' hname hsome hnone hne hrenames
  refine ⟨{ ((t.buryTarget target).drop n.ino oldName).instantiate m.ino newName old with rc := 0 },
    ?_, ?_, fun _ => trivial⟩
  · change (dget n.ino oldName >>= _ : Prog Fault Fs PUnit) s = _
    rw [bind_apply, hrun, hino]
    change (dget m.ino newName >>= _ : Prog Fault Fs PUnit) _ = _
    rw [bind_apply, hrun']
    change
      (osdfsRename out n.ino oldName old m.ino newName target >>= _ : Prog Fault Fs PUnit) _ = _
    rw [bind_apply, hrename]
    rfl
  · have hfields : (t.buryTarget target).inodes = t.inodes ∧
        (t.buryTarget target).removed = t.removed ∧ (t.buryTarget target).nextUid = t.nextUid ∧
        (t.buryTarget target).dentries = t.dentries := by
      cases target with
      | none => exact ⟨rfl, rfl, rfl, rfl⟩
      | some ino => exact ⟨rfl, rfl, rfl, rfl⟩
    refine hs₂.after hframe hbal hfields.1 hfields.2.1 hfields.2.2.1 (fun x hx => ?_)
      (fun i hi hkind hgone => ?_) fun i hi => ?_
    · rcases List.mem_cons.mp hx with rfl | hx
      · exact hlink
      · obtain ⟨hx, hnew⟩ := List.mem_filter.mp hx
        obtain ⟨hx, hkey⟩ := List.mem_filter.mp hx
        rw [hfields.2.2.2, hframe.dentries] at hx
        exact hlinks _ (hs₂.cached x hx) (of_decide_eq_true hkey) (of_decide_eq_true hnew)
    · change i ∈ (t.buryTarget target).dead
      rw [hremoved] at hi
      rcases List.mem_append.mp hi with hi | hi
      · obtain rfl := Option.mem_toList.mp hi
        exact t.mem_bury hkind
      · exact absurd hi hgone
    · change i ∈ (t.buryTarget target).dead
      rw [← hframe.dead] at hi
      cases target with
      | none => exact hi
      | some ino => exact t.dead_bury ino hi

/-- One call. -/
theorem linkNext_steps (h : s.Sound) (hpermitted : Permitted s e) (hsafe : LinkSafe s e) :
    s.Steps e := by
  obtain ⟨call, out⟩ := e
  cases call with
  | mknod dir name kind => exact steps_mknod h hpermitted hsafe
  | mkdir dir name => exact steps_mkdir h hpermitted hsafe.1 hsafe.2
  | symlink dir name => exact steps_symlink h hpermitted hsafe
  | link oldDir oldName dir name =>
    obtain ⟨hd, hold, hfree⟩ := hpermitted
    exact steps_link h hd hold hfree hsafe
  | unlink dir name => exact steps_unlink h hpermitted.1 hpermitted.2 hsafe
  | rename oldDir oldName newDir newName =>
    obtain ⟨hd, hd', hname, hold, hne⟩ := hpermitted
    exact steps_rename h hd hd' hname hold hne hsafe
  | forget dir name => exact ⟨_, rfl, h.drop dir name, fun _ => trivial⟩

end Calls

/-! ## Runs -/

section Runs

variable {s : Fs} {e : LinkEvent}

/-- The invariant holds at the start. -/
theorem linkSound_init (sync : Bool) (pages : Nat → List UInt8) : (Fs.init sync pages).Sound := by
  have hempty := DirInode.WellFormed.empty pages
  have hlinks : (Fs.init sync pages).links = [] := by
    rw [Fs.links]
    change Inode.links ⟨rootUid, .directory, 2, ⟨0, pages⟩⟩ ++ [] = []
    rw [Inode.links, hempty.2]
    rfl
  have hnames : ∀ i, (Fs.init sync pages).held [] i = 0 := fun i => by
    rw [Fs.held, Fs.names, hlinks]
    rfl
  have hroot : ∀ n ∈ (Fs.init sync pages).inodes, n = ⟨rootUid, .directory, 2, ⟨0, pages⟩⟩ :=
    fun n hn => List.mem_singleton.mp hn
  refine ⟨⟨?_, ?_, ?_, ?_, ?_, ?_, ?_, ?_, ?_, ?_⟩, ?_, ?_, ?_, ?_⟩
  · exact List.nodup_singleton _
  · intro n hn _
    rw [hroot n hn]
    exact hempty.1
  · intro x hx
    rw [hlinks] at hx
    exact absurd hx List.not_mem_nil
  · exact List.forall_mem_nil _
  · exact fun i => (hnames i).trans_le (Nat.zero_le 1)
  · exact hnames rootUid
  · intro n hn
    rw [hroot n hn]
    exact show 2 < nlinkModulus by decide
  · intro n hn hkind
    rw [hroot n hn] at hkind
    exact absurd rfl hkind
  · intro n hn _ _
    rw [hroot n hn, Fs.subdirs, hlinks]
    rfl
  · intro n hn hne
    rw [hroot n hn] at hne
    exact absurd rfl hne
  · exact List.forall_mem_nil _
  · intro n hn
    rw [hroot n hn]
    exact show rootUid < 0xabc123 by decide
  · exact show rootUid < 0xabc123 by decide
  · exact fun n _ _ hgone => absurd hgone List.not_mem_nil

/-- The invariant says what it should. -/
theorem Fs.Sound.linked (h : s.Sound) : s.Linked :=
  ⟨h.balanced.files, h.balanced.dirs, h.balanced.removed⟩

/-- A call never uses the inode of a name that does not exist, the counts are right even if it does
not come to its end, and when it reports success it has made its name. -/
def Fs.Obeys (s : Fs) (e : LinkEvent) : Prop :=
  wp (linkNext e) (fun _ s' => Made e s') (fun f s' => f ≠ .noInode ∧ s'.Linked) s

/-- The invariant holds as long as nothing goes wrong. -/
theorem linkSound_of_reach {sync : Bool} {pages : Nat → List UInt8}
    (hs : Reach linkNext (fun s e => Permitted s e ∧ LinkSafe s e) (.init sync pages) s) :
    s.Sound := by
  refine hs.invariant (P := Fs.Sound) (linkSound_init sync pages) fun s e h hok => ?_
  obtain ⟨s', hrun, hs', -⟩ := linkNext_steps h hok.1 hok.2
  exact wp_intro (fun _ t ht => by
    rw [hrun] at ht
    obtain ⟨-, rfl⟩ := Outcome.ret.inj ht
    exact hs') fun _ _ _ => trivial

/-- In every run in which nothing goes wrong the link counts are right. -/
theorem links_counted (sync : Bool) (pages : Nat → List UInt8)
    (hs : Reach linkNext (fun s e => Permitted s e ∧ LinkSafe s e) (.init sync pages) s) :
    s.Linked ∧ ∀ e, Permitted s e → LinkSafe s e → s.Obeys e := by
  have hsound : s.Sound := linkSound_of_reach hs
  refine ⟨hsound.linked, fun e hpermitted hsafe => ?_⟩
  obtain ⟨s', hrun, -, hmade⟩ := linkNext_steps hsound hpermitted hsafe
  rw [Fs.Obeys, wp, hrun]
  exact hmade

/-- Steps that all turn out well, where the device gives this number. -/
def goodOutcomes (uid : Nat) : Outcomes :=
  { iget := true, create := some uid, remove := true, symlink := true, addPage := true
    delPages := true, oldPages := true, numPages := true, attr := ⟨0, .other, 0, ⟨0, fun _ => []⟩⟩ }

/-- A directory `a` with a file `b` that is moved out of it, and then the directory is removed. -/
theorem links_counted_move :
    ∃ s : Fs, (s.rc = 0 ∧ s.removed = [0xabc123] ∧ s.names 0xabc124 = 1 ∧
      (s.inode 0xabc124).nlink = 1 ∧ (s.inode rootUid).nlink = 2) ∧ s.Linked ∧
      ∀ e, Permitted s e → LinkSafe s e → s.Obeys e := by
  have hrun : ∃ s, Reach linkNext (fun s e => Permitted s e ∧ LinkSafe s e)
      (.init true fun _ => []) s ∧ s.rc = 0 ∧ s.removed = [0xabc123] ∧ s.names 0xabc124 = 1 ∧
      (s.inode 0xabc124).nlink = 1 ∧ (s.inode rootUid).nlink = 2 :=
    exists_reach [⟨.mkdir rootUid [97], goodOutcomes 0xabc123⟩,
      ⟨.mknod 0xabc123 [98] .regular, goodOutcomes 0xabc124⟩,
      ⟨.rename 0xabc123 [98] rootUid [98], goodOutcomes 0⟩,
      ⟨.unlink rootUid [97], goodOutcomes 0⟩] (by decide +kernel)
  obtain ⟨s, hs, hend⟩ := hrun
  exact ⟨s, hend, links_counted true _ hs⟩

/-- How a call goes wrong. -/
def fault? (s : Fs) (e : LinkEvent) : Option Fault :=
  match linkNext e s with
  | .ret _ _ => none
  | .halt f _ => some f

/-- A file that is linked: the type of the new name is that of an inode that it does not have. -/
theorem link_no_inode :
    ¬∀ sync pages s, Reach linkNext Permitted (.init sync pages) s →
      s.Linked ∧ ∀ e, Permitted s e → s.Obeys e := by
  intro h
  have hrun : ∃ s, Reach linkNext Permitted (.init true fun _ => []) s ∧
      Permitted s ⟨.link rootUid [97] rootUid [98], goodOutcomes 0⟩ ∧
      fault? s ⟨.link rootUid [97] rootUid [98], goodOutcomes 0⟩ = some .noInode :=
    exists_reach [⟨.mknod rootUid [97] .regular, goodOutcomes 0xabc123⟩] (by decide +kernel)
  obtain ⟨s, hs, hpermitted, hfault⟩ := hrun
  have hobeys := (h true _ s hs).2 _ hpermitted
  rw [fault?] at hfault
  split at hfault
  · exact absurd hfault.symm (Option.some_ne_none _)
  · rename_i f t hhalt
    exact (wp.of_halt hobeys hhalt).1 (Option.some.inj hfault)

end Runs

end Ost.Osdfs
