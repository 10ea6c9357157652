import FyreDL.Lib.Run
import FyreDL.Transfer.CurlMulti

/-!
# FyreDL.Transfer.Steps — what a step can do

* A `recvNewDl` does nothing, fails inside `new_conn`, or opens a connection, and two
  predicates on the state before, `Starts` and `Opens`, tell which (`recvNewDl_cases`).
* The loop of `fileStream` is left behind the first `CURLMSG_DONE` (`readMessages_done`).
* A `fileStream` that finds both entries of the transfer its message is about takes them
  out, and otherwise only reads the message (`fileStream_cases`).
* A `recvStopDl` stops the transfer, does nothing, or throws (`recvStopDl_cases`).
-/

namespace FyreDL.Transfer

open Lib

/-! ## Searching -/

section Find

variable {cm : CurlMulti} {fileLoc : Str}

theorem findDl_some {order : IterOrder (Uuid × ActiveDownloads)} {entry : Uuid × ActiveDownloads}
    (h : findDl order fileLoc cm = some entry) :
    entry ∈ cm.transferMonitoring ∧ entry.2.fileDest = fileLoc := by
  rcases order.find?_some h with ⟨hmem, hfile⟩
  exact ⟨hmem, of_decide_eq_true hfile⟩

theorem findDl_none {order : IterOrder (Uuid × ActiveDownloads)}
    (h : findDl order fileLoc cm = none) :
    ∀ entry ∈ cm.transferMonitoring, entry.2.fileDest ≠ fileLoc := by
  intro entry hmem hfile
  exact order.find?_none h entry hmem (decide_eq_true hfile)

theorem findConn_some {order : IterOrder (Uuid × CurlInit)} {entry : Uuid × CurlInit}
    (h : findConn order fileLoc cm = some entry) :
    entry ∈ cm.ehVec ∧ entry.2.fileLoc = fileLoc := by
  rcases order.find?_some h with ⟨hmem, hfile⟩
  exact ⟨hmem, of_decide_eq_true hfile⟩

theorem findEasy_some {order : IterOrder (Uuid × CurlInit)} {entry : Uuid × CurlInit} {easy : Nat}
    (h : findEasy order easy cm = some entry) :
    entry ∈ cm.ehVec ∧ entry.2.easy.number = easy := by
  rcases order.find?_some h with ⟨hmem, heasy⟩
  exact ⟨hmem, of_decide_eq_true heasy⟩

end Find

/-! ## A new download -/

section NewDl

variable (env : Outside) (url fileLoc : Str) (resumeDl : Bool) (cm : CurlMulti)

/-- `recvNewDl` goes on to start a transfer: its arguments are there, the file is not
being transferred, and an entry for it can be made if there is none. -/
def Starts : Prop :=
  fileLoc ≠ [] ∧ url ≠ [] ∧
    match findDl env.order fileLoc cm with
    | some entry => entry.2.isActive = false
    | none => env.drawnStat ∉ cm.ehVec.map Prod.fst

/-- Nothing goes wrong in `new_conn`: the id is new, there is a handle, the offset is not
negative, and the multi handle takes it. -/
def Opens : Prop :=
  env.drawnConn ∉ cm.ehVec.map Prod.fst ∧ env.easyInit = true ∧
    (resumeDl = true → 0 ≤ env.fileSize) ∧ (env.addAnswer = .ok ∨ env.addAnswer = .badSocket)

/-- The state in which the transfer is started: there is an entry for the file. -/
def prepared : CurlMulti :=
  match findDl env.order fileLoc cm with
  | some _ => cm
  | none =>
    { cm with transferMonitoring := assign cm.transferMonitoring env.drawnStat ⟨fileLoc, false⟩ }

/-- The state with the connection opened, for the entry of the file. -/
def opened (entry : Uuid × ActiveDownloads) : CurlMulti where
  ehVec := assign cm.ehVec env.drawnConn ⟨⟨cm.handles, fileLoc⟩, url, fileLoc, fileLoc⟩
  transferMonitoring := assign cm.transferMonitoring entry.1 { entry.2 with isActive := true }
  activeDownloads := cm.activeDownloads + 1
  multi := cm.multi.addHandle ⟨cm.handles, fileLoc⟩ env.addAnswer
  handles := cm.handles + 1

variable {env url fileLoc resumeDl cm}

theorem prepared_of_found {entry : Uuid × ActiveDownloads}
    (h : findDl env.order fileLoc cm = some entry) : prepared env fileLoc cm = cm := by
  rw [prepared, h]

theorem prepared_of_new (h : findDl env.order fileLoc cm = none) :
    prepared env fileLoc cm =
      { cm with
        transferMonitoring := assign cm.transferMonitoring env.drawnStat ⟨fileLoc, false⟩ } := by
  rw [prepared, h]

/-- Only `transfer_monitoring` is prepared. -/
theorem prepared_ehVec : (prepared env fileLoc cm).ehVec = cm.ehVec := by
  unfold prepared
  split
  · rfl
  · rfl

theorem prepared_multi : (prepared env fileLoc cm).multi = cm.multi := by
  unfold prepared
  split
  · rfl
  · rfl

theorem prepared_handles : (prepared env fileLoc cm).handles = cm.handles := by
  unfold prepared
  split
  · rfl
  · rfl

theorem prepared_activeDownloads :
    (prepared env fileLoc cm).activeDownloads = cm.activeDownloads := by
  unfold prepared
  split
  · rfl
  · rfl

/-- The prepared state has an entry for the file. -/
theorem prepared_found :
    ∃ entry, findDl env.order fileLoc (prepared env fileLoc cm) = some entry := by
  cases h : findDl env.order fileLoc cm with
  | some entry => exact ⟨entry, by rw [prepared_of_found h, h]⟩
  | none =>
    rw [prepared_of_new h]
    cases h' : findDl env.order fileLoc { cm with
        transferMonitoring := assign cm.transferMonitoring env.drawnStat ⟨fileLoc, false⟩ } with
    | some entry => exact ⟨entry, rfl⟩
    | none => exact absurd rfl (findDl_none h' _ (mem_assign.mpr (.inr rfl)))

theorem addHandle_of_ne {multi : Multi} {easy : Easy} {answer : CurlMCode} (h : answer ≠ .ok) :
    multi.addHandle easy answer = multi := if_neg h

theorem attachConn_fails {uuid : Uuid} {easy : Easy}
    (h : ¬ (env.addAnswer = .ok ∨ env.addAnswer = .badSocket)) :
    ∃ what, attachConn env uuid easy url fileLoc cm = (cm, .error what) := by
  have hmulti : cm.multi.addHandle easy env.addAnswer = cm.multi :=
    addHandle_of_ne fun hok => h (.inl hok)
  have hdie : ∃ what, mcodeOrDie "new_conn: curl_multi_add_handle".toList env.addAnswer =
      .error what := ⟨_, if_neg h⟩
  rcases hdie with ⟨what, hdie⟩
  refine ⟨what, ?_⟩
  rw [attachConn, hmulti, hdie]

theorem attachConn_opens {uuid : Uuid} {easy : Easy} {entry : Uuid × ActiveDownloads}
    (h : env.addAnswer = .ok ∨ env.addAnswer = .badSocket)
    (hfound : findDl env.order fileLoc cm = some entry) :
    attachConn env uuid easy url fileLoc cm =
      ({ cm with
        multi := cm.multi.addHandle easy env.addAnswer
        transferMonitoring :=
          assign cm.transferMonitoring entry.1 { entry.2 with isActive := true }
        ehVec := assign cm.ehVec uuid ⟨easy, url, fileLoc, fileLoc⟩ }, .ok uuid) := by
  have hfound' : findDl env.order fileLoc
      { cm with multi := cm.multi.addHandle easy env.addAnswer } = some entry := hfound
  rw [attachConn, mcodeOrDie, if_pos h]
  dsimp only
  rw [hfound']

/-- A `new_conn` that fails has made a handle at most. -/
theorem newConn_fails (hfile : fileLoc ≠ []) (h : ¬ Opens env resumeDl cm) :
    ∃ handles what, cm.handles ≤ handles ∧
      newConn env url fileLoc (if resumeDl then env.fileSize else 0) cm =
        ({ cm with handles := handles }, .error what) := by
  unfold newConn createId
  by_cases hid : env.drawnConn ∈ cm.ehVec.map Prod.fst
  · rw [if_pos hid]
    exact ⟨cm.handles, _, Nat.le_refl _, rfl⟩
  rw [if_neg hid]
  dsimp only
  by_cases heasy : env.easyInit = false
  · rw [if_pos heasy]
    exact ⟨cm.handles, _, Nat.le_refl _, rfl⟩
  -- from here on a handle has been made
  rw [if_neg heasy, if_neg hfile]
  by_cases hoffset : (if resumeDl then env.fileSize else 0) < 0
  · rw [if_pos hoffset]
    exact ⟨cm.handles + 1, _, Nat.le_succ _, rfl⟩
  rw [if_neg hoffset]
  -- all that is left is that libcurl refuses the handle
  have hanswer : ¬ (env.addAnswer = .ok ∨ env.addAnswer = .badSocket) := by
    intro hanswer
    refine h ⟨hid, by simpa using heasy, ?_, hanswer⟩
    intro hresume
    rw [hresume, if_pos rfl] at hoffset
    exact Int.not_lt.mp hoffset
  rcases @attachConn_fails env url fileLoc { cm with handles := cm.handles + 1 } env.drawnConn
    ⟨cm.handles, fileLoc⟩ hanswer with ⟨what, hfails⟩
  exact ⟨cm.handles + 1, what, Nat.le_succ _, hfails⟩

theorem newConn_opens (hfile : fileLoc ≠ []) (h : Opens env resumeDl cm)
    {entry : Uuid × ActiveDownloads} (hfound : findDl env.order fileLoc cm = some entry) :
    newConn env url fileLoc (if resumeDl then env.fileSize else 0) cm =
      ({ opened env url fileLoc cm entry with activeDownloads := cm.activeDownloads },
        .ok env.drawnConn) := by
  rcases h with ⟨hid, heasy, hsize, hanswer⟩
  have hoffset : ¬ (if resumeDl then env.fileSize else 0) < 0 := by
    split
    · rename_i hresume
      exact Int.not_lt.mpr (hsize hresume)
    · decide
  have heasy' : ¬ env.easyInit = false := by rw [heasy]; decide
  have hfound' : findDl env.order fileLoc { cm with handles := cm.handles + 1 } = some entry :=
    hfound
  rw [newConn, createId, if_neg hid]
  dsimp only
  rw [if_neg heasy', if_neg hfile, if_neg hoffset, attachConn_opens hanswer hfound']
  rfl

/-- **What a `recvNewDl` can do.** -/
theorem recvNewDl_cases (env : Outside) (url fileLoc : Str) (resumeDl : Bool) (cm : CurlMulti) :
    (¬ Starts env url fileLoc cm ∧ (recvNewDl env url fileLoc resumeDl cm).1 = cm) ∨
    (Starts env url fileLoc cm ∧ ¬ Opens env resumeDl cm ∧ ∃ handles, cm.handles ≤ handles ∧
      (recvNewDl env url fileLoc resumeDl cm).1 =
        { prepared env fileLoc cm with
          activeDownloads := cm.activeDownloads + 1
          handles := handles }) ∨
    (Starts env url fileLoc cm ∧ Opens env resumeDl cm ∧ ∃ entry,
      findDl env.order fileLoc (prepared env fileLoc cm) = some entry ∧
      (recvNewDl env url fileLoc resumeDl cm).1 =
        opened env url fileLoc (prepared env fileLoc cm) entry) := by
  by_cases hstarts : Starts env url fileLoc cm
  · right
    have hrun : recvNewDl env url fileLoc resumeDl cm =
        startDl env url fileLoc resumeDl (prepared env fileLoc cm) := by
      rcases hstarts with ⟨hfile, hurl, hentry⟩
      have hargs : ¬ (fileLoc = [] ∨ url = []) := not_or.mpr ⟨hfile, hurl⟩
      rw [recvNewDl, if_neg hargs]
      cases hfound : findDl env.order fileLoc cm with
      | some entry =>
        rw [hfound] at hentry
        rw [prepared_of_found hfound]
        exact if_neg (Bool.eq_false_iff.mp hentry)
      | none =>
        rw [hfound] at hentry
        rw [prepared_of_new hfound, createId, if_neg hentry]
    -- the counter is raised before `new_conn`
    set cm₁ : CurlMulti := { prepared env fileLoc cm with
      activeDownloads := (prepared env fileLoc cm).activeDownloads + 1 } with hcm₁
    have hopens : Opens env resumeDl cm₁ ↔ Opens env resumeDl cm := by
      rw [Opens, Opens, hcm₁]
      dsimp only
      rw [prepared_ehVec]
    by_cases h : Opens env resumeDl cm
    · right
      rcases @prepared_found env fileLoc cm with ⟨entry, hfound⟩
      have hfound₁ : findDl env.order fileLoc cm₁ = some entry := hfound
      refine ⟨hstarts, h, entry, hfound, ?_⟩
      rw [hrun, startDl, newConn_opens hstarts.1 (hopens.mpr h) hfound₁]
      rfl
    · left
      rcases @newConn_fails env url fileLoc resumeDl cm₁ hstarts.1 (fun hc => h (hopens.mp hc)) with
        ⟨handles, what, hle, hfails⟩
      refine ⟨hstarts, h, handles, ?_, ?_⟩
      · have hhandles : cm₁.handles = cm.handles := prepared_handles
        rwa [hhandles] at hle
      · rw [hrun, startDl, hfails, hcm₁]
        dsimp only
        rw [prepared_activeDownloads]
  · left
    refine ⟨hstarts, ?_⟩
    unfold recvNewDl
    by_cases hargs : fileLoc = [] ∨ url = []
    · rw [if_pos hargs]
    · rw [if_neg hargs]
      rw [not_or] at hargs
      rw [Starts] at hstarts
      split
      · rename_i statUuid dlStat hfound
        rw [hfound] at hstarts
        have hactive : dlStat.isActive = true := by
          by_contra hnot
          exact hstarts ⟨hargs.1, hargs.2, Bool.eq_false_iff.mpr hnot⟩
        rw [if_pos hactive]
      · rename_i hfound
        rw [hfound] at hstarts
        have hid : env.drawnStat ∈ cm.ehVec.map Prod.fst := by
          by_contra hnot
          exact hstarts ⟨hargs.1, hargs.2, hnot⟩
        rw [createId, if_pos hid]

end NewDl

/-! ## Finishing and stopping -/

section Ends

/-- The state with a transfer taken out: its handle and both its entries. -/
def takenOut (cm : CurlMulti) (conn : Uuid × CurlInit) (entry : Uuid × ActiveDownloads) :
    CurlMulti where
  ehVec := eraseKey cm.ehVec conn.1
  transferMonitoring := eraseKey cm.transferMonitoring entry.1
  activeDownloads := cm.activeDownloads - 1
  multi := (messageRead cm).multi.removeHandle conn.2.easy.number
  handles := cm.handles

/-- The state with a transfer stopped. -/
def stopped (cm : CurlMulti) (conn : Uuid × CurlInit) (entry : Uuid × ActiveDownloads) :
    CurlMulti :=
  { cm with
    transferMonitoring := assign cm.transferMonitoring entry.1 { entry.2 with isActive := false }
    activeDownloads := cm.activeDownloads - 1
    multi := cm.multi.removeHandle conn.2.easy.number }

variable (ehOrder : IterOrder (Uuid × CurlInit)) (order : IterOrder (Uuid × ActiveDownloads))
  (cm : CurlMulti)

/-- The loop over the messages is left behind the first `CURLMSG_DONE`. -/
theorem readMessages_done (msg : CurlMsg) (messages : List Message) :
    ∀ front : List Message, (∀ m ∈ front, m = .other) →
      readMessages ehOrder order (front ++ .done msg :: messages) cm =
        finishTransfer ehOrder order msg (messageRead cm)
  | [], _ => rfl
  | m :: front, h => by
    obtain rfl : m = .other := h m List.mem_cons_self
    exact readMessages_done msg messages front fun m hm => h m (List.mem_cons_of_mem _ hm)

theorem fileStream_nil (hmsgs : cm.multi.msgs = []) :
    fileStream ehOrder order cm = (cm, .idle) := by
  rw [fileStream, hmsgs, List.map_nil, readMessages]

theorem fileStream_cons {msg : CurlMsg} {msgs : List CurlMsg}
    (hmsgs : cm.multi.msgs = msg :: msgs) :
    fileStream ehOrder order cm = finishTransfer ehOrder order msg (messageRead cm) := by
  rw [fileStream, hmsgs, List.map_cons]
  exact readMessages_done ehOrder order cm msg _ [] fun _ h => absurd h List.not_mem_nil

/-- The transfer that the message in front is about, if both its entries are found. -/
def Handles (msg : CurlMsg) (conn : Uuid × CurlInit) (entry : Uuid × ActiveDownloads) : Prop :=
  cm.multi.msgs.head? = some msg ∧ findEasy ehOrder msg.easy cm = some conn ∧
    findDl order conn.2.fileLoc cm = some entry

/-- **What a `fileStream` can do.** -/
theorem fileStream_cases :
    ((¬ ∃ msg conn entry, Handles ehOrder order cm msg conn entry) ∧
      (fileStream ehOrder order cm).1 = messageRead cm ∧
      ∀ status, (fileStream ehOrder order cm).2 ≠ .finished status) ∨
    ∃ msg conn entry, Handles ehOrder order cm msg conn entry ∧
      fileStream ehOrder order cm = (takenOut cm conn entry,
        .finished ⟨msg.contentLength, conn.2.url, conn.2.fileDest⟩) := by
  cases hmsgs : cm.multi.msgs with
  | nil =>
    left
    have hread : fileStream ehOrder order cm = (messageRead cm, .idle) := by
      rw [fileStream_nil ehOrder order cm hmsgs, messageRead, hmsgs, List.tail_nil, ← hmsgs]
    refine ⟨?_, by rw [hread], fun status h => by rw [hread] at h; cases h⟩
    rintro ⟨msg, conn, entry, hhead, -, -⟩
    rw [hmsgs] at hhead
    cases hhead
  | cons msg msgs =>
    have hdone := fileStream_cons ehOrder order cm hmsgs
    -- the two searches do not look at the messages
    have hsearch : ∀ o, findEasy ehOrder msg.easy cm = o →
        findEasy ehOrder msg.easy (messageRead cm) = o :=
      fun _ h => h
    have hsearch' : ∀ fileLoc o, findDl order fileLoc cm = o →
        findDl order fileLoc (messageRead cm) = o :=
      fun _ _ h => h
    cases hconn : findEasy ehOrder msg.easy cm with
    | none =>
      left
      have hrun : fileStream ehOrder order cm = (messageRead cm, .failed ptrUuidEmpty) := by
        rw [hdone, finishTransfer, hsearch _ hconn]
      refine ⟨?_, by rw [hrun], fun status h => by rw [hrun] at h; cases h⟩
      rintro ⟨msg', conn, entry, hhead, hfind, -⟩
      rw [hmsgs, List.head?_cons, Option.some.injEq] at hhead
      rw [← hhead, hconn] at hfind
      cases hfind
    | some conn =>
      cases hentry : findDl order conn.2.fileLoc cm with
      | none =>
        left
        have hrun : fileStream ehOrder order cm = (messageRead cm, .failed statUuidEmpty) := by
          rw [hdone, finishTransfer, hsearch _ hconn]
          dsimp only
          rw [hsearch' _ _ hentry]
        refine ⟨?_, by rw [hrun], fun status h => by rw [hrun] at h; cases h⟩
        rintro ⟨msg', conn', entry, hhead, hfind, hdl⟩
        rw [hmsgs, List.head?_cons, Option.some.injEq] at hhead
        rw [← hhead, hconn, Option.some.injEq] at hfind
        rw [← hfind, hentry] at hdl
        cases hdl
      | some entry =>
        right
        refine ⟨msg, conn, entry, ⟨by rw [hmsgs]; rfl, hconn, hentry⟩, ?_⟩
        rw [hdone, finishTransfer, hsearch _ hconn]
        dsimp only
        rw [hsearch' _ _ hentry]
        rfl

/-- **What a `recvStopDl` can do.** -/
theorem recvStopDl_cases (fileLoc : Str) :
    ((findConn ehOrder fileLoc cm = none ∨ findDl order fileLoc cm = none) ∧
      recvStopDl ehOrder order fileLoc cm = .error uuidsEmpty) ∨
    ∃ conn entry, findConn ehOrder fileLoc cm = some conn ∧
      findDl order fileLoc cm = some entry ∧
      recvStopDl ehOrder order fileLoc cm =
        .ok (if entry.2.isActive then stopped cm conn entry else cm) := by
  unfold recvStopDl
  -- both searches have to find something
  cases hconn : findConn ehOrder fileLoc cm with
  | none => exact .inl ⟨.inl rfl, rfl⟩
  | some conn =>
    cases hentry : findDl order fileLoc cm with
    | none => exact .inl ⟨.inr rfl, rfl⟩
    | some entry =>
      right
      refine ⟨conn, entry, rfl, rfl, ?_⟩
      dsimp only
      split
      · rfl
      · rfl

/-- The state after a stop. -/
theorem step_stopDl (fileLoc : Str) :
    step cm (.stopDl ehOrder order fileLoc) = cm ∨
    ∃ conn entry, findConn ehOrder fileLoc cm = some conn ∧
      findDl order fileLoc cm = some entry ∧ entry.2.isActive = true ∧
      step cm (.stopDl ehOrder order fileLoc) = stopped cm conn entry := by
  rcases recvStopDl_cases ehOrder order cm fileLoc with
    ⟨-, hrun⟩ | ⟨conn, entry, hconn, hentry, hrun⟩
  · left
    rw [step, hrun]
  · rw [step, hrun]
    dsimp only
    cases hactive : entry.2.isActive with
    | true => exact .inr ⟨conn, entry, hconn, hentry, hactive, rfl⟩
    | false => exact .inl rfl

end Ends

end FyreDL.Transfer
