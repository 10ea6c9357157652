import FyreDL.Transfer.Stopping

/-!
# FyreDL.Transfer.Disk — the files that the transfers write to

`new_conn` opens the file of a transfer in append mode, whatever the offset is, and
`curl_write_file_callback` writes each chunk at its end. The offset that the server is
asked to start from is the size of the file at that moment.

* The state is that of the transfers, with the files and, for each easy handle, the
  offset of the next byte that it delivers. A chunk is delivered by any attached handle.
* `OnDisk`: each file is a prefix of its resource and has one attached handle at most,
  which goes on where the file ends (`step_onDisk`). This needs that no transfer is
  started for a file while a handle of the file is attached (`NoneAttached`).
* `files_prefix` — in every state of such a run each file is a prefix of its resource.
* `noneAttached_of_stopsRight` — a run is one if each stop meets the attached handle of its
  file before any other entry.
-/

namespace FyreDL.Transfer

open Lib

/-! ## Files -/

/-- The files of the user's storage. -/
abbrev Files := Str → Option (List UInt8)

/-- `getFileSize`. -/
def getFileSize (files : Files) (fileLoc : Str) : Int :=
  match files fileLoc with
  | some content => content.length
  | none => -1

/-- The offset that `recvNewDl` gives to `new_conn`. -/
def fileOffset (files : Files) (fileLoc : Str) (resumeDl : Bool) : Int :=
  if resumeDl then getFileSize files fileLoc else 0

/-- A file is opened in append mode: it is made if it is not there. -/
def openFile (fileLoc : Str) (files : Files) : Files :=
  fun f => if f = fileLoc then some ((files f).getD []) else files f

/-- `curl_write_file_callback`, for the file that the stream was opened on. -/
def curlWriteFileCallback (fileLoc : Str) (buffer : List UInt8) (files : Files) : Files :=
  fun f => if f = fileLoc then some ((files f).getD [] ++ buffer) else files f

/-- The transfers, the files, and the offset that each easy handle has reached. -/
structure Disk where
  engine : CurlMulti
  files : Files
  offset : Nat → Nat

/-- Before the first download. -/
def Disk.start (files : Files) : Disk := ⟨CurlMulti.start, files, fun _ => 0⟩

/-- `recvNewDl`. `new_conn` opens the file once it has made a handle and has checked the
offset, before the handle is attached. -/
def Disk.newDl (env : Outside) (url fileLoc : Str) (resumeDl : Bool) (d : Disk) : Disk :=
  let env := { env with fileSize := getFileSize d.files fileLoc }
  let engine := (recvNewDl env url fileLoc resumeDl d.engine).1
  let start := fileOffset d.files fileLoc resumeDl
  if d.engine.handles < engine.handles ∧ 0 ≤ start then
    { engine := engine
      files := openFile fileLoc d.files
      offset := fun n => if n = d.engine.handles then start.toNat else d.offset n }
  else { d with engine := engine }

/-- An easy handle delivers the next bytes of its resource, `size` of them at most. -/
def Disk.chunk (remote : Str → List UInt8) (easy size : Nat) (d : Disk) : Disk :=
  match d.engine.multi.attached.find? fun h => h.number = easy with
  | none => d
  | some h =>
    let buffer := ((remote h.fileLoc).drop (d.offset easy)).take size
    { d with
      files := curlWriteFileCallback h.fileLoc buffer d.files
      offset := fun n => if n = easy then d.offset easy + buffer.length else d.offset n }

/-- What happens to the transfers and the files. -/
inductive DiskAction where
  | newDl (env : Outside) (url fileLoc : Str) (resumeDl : Bool)
  | chunk (easy size : Nat)
  | transferEnds (msg : CurlMsg)
  | fileStream (ehOrder : IterOrder (Uuid × CurlInit)) (order : IterOrder (Uuid × ActiveDownloads))
  | stopDl (ehOrder : IterOrder (Uuid × CurlInit)) (order : IterOrder (Uuid × ActiveDownloads))
    (fileLoc : Str)

/-- The state after an action. -/
def Disk.step (remote : Str → List UInt8) (d : Disk) : DiskAction → Disk
  | .newDl env url fileLoc resumeDl => d.newDl env url fileLoc resumeDl
  | .chunk easy size => d.chunk remote easy size
  | .transferEnds msg => { d with engine := Transfer.step d.engine (.transferEnds msg) }
  | .fileStream ehOrder order =>
    { d with engine := Transfer.step d.engine (.fileStream ehOrder order) }
  | .stopDl ehOrder order fileLoc =>
    { d with engine := Transfer.step d.engine (.stopDl ehOrder order fileLoc) }

/-! ## Conditions -/

/-- The callers resume a download exactly if its file is there. -/
def Arranged (d : Disk) : DiskAction → Prop
  | .newDl _ _ fileLoc resumeDl => (d.files fileLoc).isSome = resumeDl
  | .chunk _ _ => True
  | .transferEnds _ => True
  | .fileStream _ _ => True
  | .stopDl _ _ _ => True

/-- No transfer is started for a file while an easy handle of it is attached. -/
def NoneAttached (d : Disk) : DiskAction → Prop
  | .newDl env url fileLoc _ =>
    Starts env url fileLoc d.engine → ∀ h ∈ d.engine.multi.attached, h.fileLoc ≠ fileLoc
  | .chunk _ _ => True
  | .transferEnds _ => True
  | .fileStream _ _ => True
  | .stopDl _ _ _ => True

/-- Every file is a prefix of its resource. -/
def Prefixes (remote : Str → List UInt8) (files : Files) : Prop :=
  ∀ f content, files f = some content → content <+: remote f

/-! ## The invariant -/

/-- Every file is a prefix of its resource, and goes on where its handle does. -/
structure OnDisk (remote : Str → List UInt8) (d : Disk) : Prop where
  registered : Registered d.engine
  single : ∀ h ∈ d.engine.multi.attached, ∀ h' ∈ d.engine.multi.attached,
    h.fileLoc = h'.fileLoc → h = h'
  goesOn : ∀ h ∈ d.engine.multi.attached, ∃ content,
    d.files h.fileLoc = some content ∧ content.length = d.offset h.number
  prefixes : Prefixes remote d.files

section Files

variable {remote : Str → List UInt8} {files : Files} {fileLoc : Str}

/-- The next bytes of the resource, after what the file has of it. -/
theorem append_next {content resource : List UInt8} (h : content <+: resource) (size : Nat) :
    content ++ (resource.drop content.length).take size <+: resource := by
  rcases h with ⟨rest, rfl⟩
  rw [List.drop_left, List.prefix_append_right_inj]
  exact List.take_prefix size rest

theorem openFile_of_some {f : Str} {content : List UInt8} (h : files f = some content) :
    openFile fileLoc files f = some content := by
  unfold openFile
  split
  · rw [h]
    rfl
  · exact h

theorem Prefixes.openFile (h : Prefixes remote files) (fileLoc : Str) :
    Prefixes remote (openFile fileLoc files) := by
  intro f content hcontent
  cases hf : files f with
  | some old =>
    rw [openFile_of_some hf, ← hf] at hcontent
    exact h f content hcontent
  | none =>
    -- a file that was not there is empty
    unfold Transfer.openFile at hcontent
    rw [hf] at hcontent
    split at hcontent
    · rw [← Option.some.inj hcontent]
      exact List.nil_prefix
    · cases hcontent

theorem Prefixes.write (h : Prefixes remote files) {content : List UInt8}
    (hfile : files fileLoc = some content) (size : Nat) :
    Prefixes remote (curlWriteFileCallback fileLoc
      (((remote fileLoc).drop content.length).take size) files) := by
  intro f new hnew
  unfold curlWriteFileCallback at hnew
  split at hnew
  · rename_i hf
    rw [hf, hfile] at hnew
    rw [← Option.some.inj hnew, hf]
    exact append_next (h fileLoc content hfile) size
  · exact h f new hnew

end Files

section Step

variable {remote : Str → List UInt8} {d : Disk}

/-- The handles that are left keep their files. -/
theorem OnDisk.of_attached (h : OnDisk remote d) {engine : CurlMulti} (hr : Registered engine)
    (hsub : ∀ e ∈ engine.multi.attached, e ∈ d.engine.multi.attached) :
    OnDisk remote { d with engine := engine } where
  registered := hr
  single := fun e he e' he' => h.single e (hsub e he) e' (hsub e' he')
  goesOn := fun e he => h.goesOn e (hsub e he)
  prefixes := h.prefixes

/-- The number of an attached handle is not that of the next one. -/
theorem OnDisk.number_lt (h : OnDisk remote d) {e : Easy} (he : e ∈ d.engine.multi.attached) :
    e.number < d.engine.handles := by
  rcases h.registered.attached e he with ⟨entry, hentry, rfl⟩
  exact h.registered.made entry hentry

/-- A file is opened, and a new handle starts where it ends. -/
theorem OnDisk.opened (h : OnDisk remote d) {engine : CurlMulti} (hr : Registered engine)
    {fileLoc : Str} {start : Nat}
    (hattached : ∀ e ∈ engine.multi.attached, e ∈ d.engine.multi.attached ∨
      e = ⟨d.engine.handles, fileLoc⟩ ∧ (∀ e' ∈ d.engine.multi.attached, e'.fileLoc ≠ fileLoc) ∧
        ((d.files fileLoc).getD []).length = start) :
    OnDisk remote
      { engine := engine
        files := openFile fileLoc d.files
        offset := fun n => if n = d.engine.handles then start else d.offset n } where
  registered := hr
  single := by
    intro e he e' he' hfile
    -- a second handle for the file is what the hypothesis excludes
    rcases hattached e he with hold | ⟨rfl, hother, -⟩
    · rcases hattached e' he' with hold' | ⟨rfl, hother, -⟩
      · exact h.single e hold e' hold' hfile
      · exact absurd hfile (hother e hold)
    · rcases hattached e' he' with hold' | ⟨rfl, -, -⟩
      · exact absurd hfile.symm (hother e' hold')
      · rfl
  goesOn := by
    intro e he
    dsimp only
    rcases hattached e he with hold | ⟨rfl, -, hlength⟩
    · -- the old handles have other numbers, so their offsets stay
      rcases h.goesOn e hold with ⟨content, hcontent, hlength⟩
      refine ⟨content, openFile_of_some hcontent, ?_⟩
      rw [if_neg (Nat.ne_of_lt (h.number_lt hold))]
      exact hlength
    · refine ⟨_, if_pos rfl, ?_⟩
      rw [if_pos rfl]
      exact hlength
  prefixes := h.prefixes.openFile fileLoc

theorem onDisk_newDl (h : OnDisk remote d) {env : Outside} {url fileLoc : Str} {resumeDl : Bool}
    (harranged : (d.files fileLoc).isSome = resumeDl)
    (hnone : Starts env url fileLoc d.engine →
      ∀ e ∈ d.engine.multi.attached, e.fileLoc ≠ fileLoc) :
    OnDisk remote (d.newDl env url fileLoc resumeDl) := by
  set env' : Outside := { env with fileSize := getFileSize d.files fileLoc }
  have hr : Registered (recvNewDl env' url fileLoc resumeDl d.engine).1 :=
    step_registered d.engine (.newDl env' url fileLoc resumeDl) h.registered
  -- the offset is the length of the file, and 0 if it is new
  have hlength : ((d.files fileLoc).getD []).length =
      (fileOffset d.files fileLoc resumeDl).toNat := by
    rw [fileOffset, getFileSize, ← harranged]
    cases d.files fileLoc with
    | some content => rfl
    | none => rfl
  unfold Disk.newDl
  dsimp only
  split
  · apply h.opened hr
    intro e he
    rcases recvNewDl_attached he with hold | ⟨hstarts, -, -, heq⟩
    · exact .inl hold
    · exact .inr ⟨heq, hnone hstarts, hlength⟩
  · -- no stream was opened, so no handle was made
    rename_i hnot
    apply h.of_attached hr
    intro e he
    rcases recvNewDl_attached he with hold | ⟨-, hopens, hhandles, -⟩
    · exact hold
    · refine absurd ⟨?_, ?_⟩ hnot
      · rw [hhandles]
        exact Nat.lt_succ_self _
      · unfold fileOffset
        split
        · rename_i hresume
          exact hopens.2.2.1 hresume
        · exact Int.le_refl 0

theorem onDisk_chunk (h : OnDisk remote d) (easy size : Nat) :
    OnDisk remote (d.chunk remote easy size) := by
  unfold Disk.chunk
  split
  · exact h
  · rename_i e hfind
    have he : e ∈ d.engine.multi.attached := List.mem_of_find?_eq_some hfind
    have hnumber : e.number = easy := by simpa using List.find?_some hfind
    rcases h.goesOn e he with ⟨content, hcontent, hlength⟩
    rw [hnumber] at hlength
    rw [← hlength]
    constructor
    · exact h.registered
    · exact h.single
    · intro e' he'
      dsimp only
      by_cases hfile : e'.fileLoc = e.fileLoc
      · -- the file has one handle, the one that delivers
        rw [h.single e' he' e he hfile, hnumber, if_pos rfl]
        refine ⟨_, if_pos rfl, ?_⟩
        rw [hcontent, Option.getD_some, List.length_append]
      · rcases h.goesOn e' he' with ⟨content', hcontent', hlength'⟩
        have hother : e'.number ≠ easy := by
          intro heq
          rcases h.registered.attached e he with ⟨entry, hentry, rfl⟩
          have hsame := h.registered.easy_eq hentry he' (heq.trans hnumber.symm)
          exact hfile (congrArg Easy.fileLoc hsame.symm)
        rw [if_neg hother]
        exact ⟨content', (if_neg hfile).trans hcontent', hlength'⟩
    · exact h.prefixes.write hcontent size

end Step

/-- **One step** keeps the files in order, unless it starts a second handle for a file. -/
theorem step_onDisk {remote : Str → List UInt8} (d : Disk) (a : DiskAction)
    (h : OnDisk remote d) (ha : Arranged d a ∧ NoneAttached d a) :
    OnDisk remote (d.step remote a) := by
  cases a with
  | newDl env url fileLoc resumeDl => exact onDisk_newDl h ha.1 ha.2
  | chunk easy size => exact onDisk_chunk h easy size
  | transferEnds msg =>
    -- the files stay as they are, and no handle is attached
    refine h.of_attached (step_registered d.engine _ h.registered) ?_
    intro e he
    exact finish_attached d.engine.multi msg ▸ he
  | fileStream ehOrder order =>
    refine h.of_attached (step_registered d.engine _ h.registered) ?_
    intro e he
    change e ∈ (fileStream ehOrder order d.engine).1.multi.attached at he
    rcases fileStream_cases ehOrder order d.engine with
      ⟨-, hrun, -⟩ | ⟨msg, conn, entry, -, hrun⟩
    · rw [hrun] at he
      exact he
    · rw [hrun] at he
      exact (mem_removeHandle.mp he).1
  | stopDl ehOrder order fileLoc =>
    refine h.of_attached (step_registered d.engine _ h.registered) ?_
    intro e he
    rcases step_stopDl ehOrder order d.engine fileLoc with hrun | ⟨conn, entry, -, -, -, hrun⟩
    · rw [hrun] at he
      exact he
    · rw [hrun] at he
      exact (mem_removeHandle.mp he).1

/-! ## Runs -/

theorem onDisk_start {remote : Str → List UInt8} {files : Files} (h : Prefixes remote files) :
    OnDisk remote (Disk.start files) where
  registered := tracked_start.registered
  single := fun _ he => absurd he List.not_mem_nil
  goesOn := fun _ he => absurd he List.not_mem_nil
  prefixes := h

/-- **The files.** In a run that starts no transfer for a file while a handle of the file is
attached, every file is a prefix of its resource in every state. -/
theorem files_prefix {remote : Str → List UInt8} {files : Files} {as : List DiskAction}
    (hfiles : Prefixes remote files)
    (harranged : EachStep (Disk.step remote) Arranged (Disk.start files) as)
    (hnone : EachStep (Disk.step remote) NoneAttached (Disk.start files) as) :
    EachState (Disk.step remote) (fun d => Prefixes remote d.files) (Disk.start files) as :=
  eachState_of_invariant step_onDisk (fun _ h => h.prefixes) (onDisk_start hfiles)
    (harranged.and hnone)

/-- Every stop meets the attached handle of its file, and all ids are new. -/
def StopsRight (d : Disk) : DiskAction → Prop
  | .newDl env url fileLoc resumeDl => DrawsNew d.engine (.newDl env url fileLoc resumeDl)
  | .chunk _ _ => True
  | .transferEnds _ => True
  | .fileStream _ _ => True
  | .stopDl ehOrder order fileLoc => StopFinds d.engine (.stopDl ehOrder order fileLoc)

theorem step_engine_tracked {remote : Str → List UInt8} (d : Disk) (a : DiskAction)
    (h : Tracked d.engine) (ha : StopsRight d a) : Tracked (d.step remote a).engine := by
  cases a with
  | newDl env url fileLoc resumeDl =>
    -- the size of the file is all that the engine learns of the disk
    have hstep : (d.newDl env url fileLoc resumeDl).engine =
        step d.engine (.newDl { env with fileSize := getFileSize d.files fileLoc } url fileLoc
          resumeDl) := by
      unfold Disk.newDl
      dsimp only
      split
      · rfl
      · rfl
    change Tracked (d.newDl env url fileLoc resumeDl).engine
    rw [hstep]
    exact step_tracked _ _ h ha trivial
  | chunk easy size =>
    -- received bytes do not reach the engine
    have hstep : (d.chunk remote easy size).engine = d.engine := by
      unfold Disk.chunk
      split
      · rfl
      · rfl
    change Tracked (d.chunk remote easy size).engine
    rw [hstep]
    exact h
  | transferEnds msg => exact step_tracked d.engine (.transferEnds msg) h trivial trivial
  | fileStream ehOrder order =>
    exact step_tracked d.engine (.fileStream ehOrder order) h trivial trivial
  | stopDl ehOrder order fileLoc =>
    exact step_tracked d.engine (.stopDl ehOrder order fileLoc) h trivial ha

/-- A transfer is only started for a file that is not active, and then no handle of it is
attached. -/
theorem noneAttached_of_tracked (d : Disk) (a : DiskAction) (h : Tracked d.engine)
    (ha : StopsRight d a) : NoneAttached d a := by
  cases a with
  | newDl env url fileLoc resumeDl =>
    intro hstarts e he
    have hprepared := h.followed.prepared ha fileLoc
    rcases @prepared_found env fileLoc d.engine with ⟨entry, hentry⟩
    rcases findDl_some hentry with ⟨hmem, hfile⟩
    rw [← hfile]
    apply hprepared.ne_of_inactive (prepared_monitored h.monitored env fileLoc) hmem
      (prepared_inactive hstarts hentry)
    rw [prepared_multi]
    exact he
  | chunk easy size => trivial
  | transferEnds msg => trivial
  | fileStream ehOrder order => trivial
  | stopDl ehOrder order fileLoc => trivial

/-- **Stops and starts.** If every stop of a run meets the attached handle of its file before
any other entry, then no transfer is started beside another one of the file. -/
theorem noneAttached_of_stopsRight {remote : Str → List UInt8} {files : Files}
    {as : List DiskAction} (h : EachStep (Disk.step remote) StopsRight (Disk.start files) as) :
    EachStep (Disk.step remote) NoneAttached (Disk.start files) as :=
  @eachStep_of_invariant _ _ (Disk.step remote) (fun d => Tracked d.engine) StopsRight NoneAttached
    step_engine_tracked noneAttached_of_tracked _ _ tracked_start h

/-! ## A download that is resumed twice -/

/-- Four bytes, for every file. -/
def sampleRemote : Str → List UInt8 := fun _ => [1, 2, 3, 4]

/-- A download that is started, writes a byte, and is stopped and resumed. -/
def resumedDisk : List DiskAction :=
  [.newDl (sampleOutside 1 2) sampleUrl sampleFile false,
   .chunk 0 1,
   .stopDl (IterOrder.insertion _) (IterOrder.insertion _) sampleFile,
   .newDl (sampleOutside 3 4) sampleUrl sampleFile true,
   .chunk 1 2]

/-- It is stopped and resumed once more, and both handles that are attached deliver a
byte. -/
def resumedTwice : List DiskAction :=
  [.stopDl (IterOrder.insertion _) (IterOrder.insertion _) sampleFile,
   .newDl (sampleOutside 5 6) sampleUrl sampleFile true,
   .chunk 1 1,
   .chunk 2 1]

/-- The second stop meets the entry of the first handle. The second handle stays attached,
and both it and the third one write the last byte. -/
theorem files_resumedTwice :
    EachStep (Disk.step sampleRemote) Arranged (Disk.start fun _ => none)
        (resumedDisk ++ resumedTwice) ∧
    ((resumedDisk ++ resumedTwice).foldl (Disk.step sampleRemote)
        (Disk.start fun _ => none)).files sampleFile = some [1, 2, 3, 4, 4] ∧
    ¬ EachState (Disk.step sampleRemote) (fun d => Prefixes sampleRemote d.files)
        (Disk.start fun _ => none) (resumedDisk ++ resumedTwice) := by
  have hcontent : ((resumedDisk ++ resumedTwice).foldl (Disk.step sampleRemote)
      (Disk.start fun _ => none)).files sampleFile = some [1, 2, 3, 4, 4] := by decide +kernel
  refine ⟨?_, hcontent, ?_⟩
  · refine ⟨?_, trivial, trivial, ?_, trivial, trivial, ?_, trivial, trivial, trivial⟩
    · change (_ : Bool) = _
      decide +kernel
    · change (_ : Bool) = _
      decide +kernel
    · change (_ : Bool) = _
      decide +kernel
  · intro hstates
    have hlast := eachState_iff_prefix.mp hstates _ (List.prefix_refl _)
    -- five bytes of a resource that has four
    have hprefix : [1, 2, 3, 4, 4] <+: sampleRemote sampleFile :=
      hlast sampleFile [1, 2, 3, 4, 4] hcontent
    exact absurd hprefix.length_le (by decide)

/-- A download that is resumed once goes on where it was stopped. -/
theorem files_prefix_resumed :
    EachState (Disk.step sampleRemote) (fun d => Prefixes sampleRemote d.files)
      (Disk.start fun _ => none) resumedDisk := by
  apply files_prefix
  · intro f content hcontent
    cases hcontent
  · refine ⟨?_, trivial, trivial, ?_, trivial, trivial⟩
    · change (_ : Bool) = _
      decide +kernel
    · change (_ : Bool) = _
      decide +kernel
  · refine ⟨?_, trivial, trivial, ?_, trivial, trivial⟩
    · intro _ h hh
      exact absurd hh List.not_mem_nil
    · intro _
      decide +kernel

end FyreDL.Transfer
