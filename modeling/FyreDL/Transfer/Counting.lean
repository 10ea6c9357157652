import FyreDL.Transfer.Invariants

/-!
# FyreDL.Transfer.Counting — what `active_downloads` counts

`fileStream` goes on driving transfers, and `curl_xferinfo` lets them go on, while
`active_downloads` is positive. It is meant to be the number of entries of
`transfer_monitoring` that are active, and four places move it.

* `step_counted` — for each action the condition on the state before under which it keeps
  the two equal (`KeepsCount`), exactly. A `recvNewDl` raises the counter before
  `new_conn`, which may throw, and nothing lowers it again. A `fileStream` lowers it for a
  transfer whose entry is no longer active, which happens when a stop has detached another
  handle of the file.
* `activeDownloads_counts_iff` — hence they are equal in all states of a run exactly if
  each step of the run meets its condition.
-/

namespace FyreDL.Transfer

open Lib

/-! ## Counting entries -/

/-- The number of active entries. -/
def activeCount (m : List (Uuid × ActiveDownloads)) : Nat := m.countP fun entry => entry.2.isActive

section Count

variable {m : List (Uuid × ActiveDownloads)}

theorem activeCount_assign (uuid : Uuid) (dlStat : ActiveDownloads) :
    activeCount (assign m uuid dlStat) =
      activeCount (eraseKey m uuid) + (if dlStat.isActive then 1 else 0) := by
  rw [activeCount, assign, List.countP_append, List.countP_singleton]
  rfl

/-- An entry counts for itself. -/
theorem activeCount_mem (h : Monitored m) {entry : Uuid × ActiveDownloads} (hmem : entry ∈ m) :
    activeCount m = activeCount (eraseKey m entry.1) + (if entry.2.isActive then 1 else 0) := by
  rw [activeCount, (perm_cons_eraseKey h.keys hmem).countP_eq, List.countP_cons]
  rfl

/-- An entry that may be written over. -/
theorem activeCount_eraseKey (h : Monitored m) (uuid : Uuid) :
    ((∀ entry ∈ m, entry.1 = uuid → entry.2.isActive = false) ∧
        activeCount (eraseKey m uuid) = activeCount m) ∨
      ((¬ ∀ entry ∈ m, entry.1 = uuid → entry.2.isActive = false) ∧
        activeCount (eraseKey m uuid) + 1 = activeCount m) := by
  by_cases hkey : uuid ∈ m.map Prod.fst
  · rcases List.mem_map.mp hkey with ⟨entry, hmem, rfl⟩
    have hcount := activeCount_mem h hmem
    -- an id is in the map once, so this entry decides
    cases hactive : entry.2.isActive with
    | false =>
      left
      rw [hactive, if_neg Bool.false_ne_true] at hcount
      refine ⟨fun e he hk => ?_, hcount.symm⟩
      rw [h.eq_of_key he hmem hk]
      exact hactive
    | true =>
      right
      rw [hactive, if_pos rfl] at hcount
      refine ⟨fun hall => ?_, hcount.symm⟩
      rw [hall entry hmem rfl] at hactive
      exact Bool.false_ne_true hactive
  · left
    constructor
    · intro e he hk
      exact absurd (hk ▸ List.mem_map_of_mem he) hkey
    · rw [eraseKey_of_notMem hkey]

end Count

/-! ## The counter -/

/-- `active_downloads` is the number of active transfers. -/
def Counted (cm : CurlMulti) : Prop :=
  cm.activeDownloads.toInt = activeCount cm.transferMonitoring

instance (cm : CurlMulti) : Decidable (Counted cm) := inferInstanceAs (Decidable (_ = _))

/-- The id drawn for a new entry is not the one of an active entry. -/
def DrawnApart (env : Outside) (fileLoc : Str) (cm : CurlMulti) : Prop :=
  findDl env.order fileLoc cm = none →
    ∀ entry ∈ cm.transferMonitoring, entry.1 = env.drawnStat → entry.2.isActive = false

instance (env : Outside) (fileLoc : Str) (cm : CurlMulti) : Decidable (DrawnApart env fileLoc cm) :=
  inferInstanceAs (Decidable (_ → _))

/-- The condition under which a step keeps the count. -/
def KeepsCount (cm : CurlMulti) : Action → Prop
  | .newDl env url fileLoc resumeDl =>
    Starts env url fileLoc cm →
      Opens env resumeDl cm ∧ DrawnApart env fileLoc cm ∧
        activeCount cm.transferMonitoring + 1 < 2 ^ 15
  | .transferEnds _ => True
  | .fileStream ehOrder order =>
    ∀ msg conn entry, Handles ehOrder order cm msg conn entry → entry.2.isActive = true
  | .stopDl _ _ _ => True

/-- One more, on a `short`. -/
theorem toInt_add_one {a : Int16} {n k : Nat} (h : a.toInt = n) (hk : k ≤ n + 1)
    (hk' : n ≤ k + 1) : (a + 1).toInt = k ↔ k = n + 1 ∧ n + 1 < 2 ^ 15 := by
  have hsum : (a + 1).toInt = ((n : Int) + 1).bmod (2 ^ 16) := by
    rw [Int16.toInt_add, h]
    rfl
  have hlt := Int16.toInt_lt a
  have hmod : (a + 1).toInt % (2 ^ 16 : Nat) = ((n : Int) + 1) % (2 ^ 16 : Nat) := by
    rw [hsum, Int.bmod_emod]
  constructor
  · intro heq
    have hlt' := Int16.toInt_lt (a + 1)
    omega
  · rintro ⟨rfl, hsmall⟩
    rw [hsum, Int.bmod_eq_of_le_mul_two (by omega) (by omega)]
    rfl

/-- One less. -/
theorem toInt_sub_one {a : Int16} {n : Nat} (h : a.toInt = n) :
    (0 < n → (a - 1).toInt = (n - 1 : Nat)) ∧ (a - 1).toInt ≠ n := by
  have hdiff : (a - 1).toInt = ((n : Int) - 1).bmod (2 ^ 16) := by
    rw [Int16.toInt_sub, h]
    rfl
  have hlt := Int16.toInt_lt a
  have hmod : (a - 1).toInt % (2 ^ 16 : Nat) = ((n : Int) - 1) % (2 ^ 16 : Nat) := by
    rw [hdiff, Int.bmod_emod]
  constructor
  · intro hpos
    rw [hdiff, Int.bmod_eq_of_le_mul_two (by omega) (by omega)]
    omega
  · intro heq
    omega

/-! ## Each action -/

section Steps

variable {cm : CurlMulti}

/-- The entries before and after an entry for the file is there. -/
theorem activeCount_prepared (h : Monitored cm.transferMonitoring) (env : Outside) (fileLoc : Str) :
    (DrawnApart env fileLoc cm ∧ activeCount (prepared env fileLoc cm).transferMonitoring =
        activeCount cm.transferMonitoring) ∨
      (¬ DrawnApart env fileLoc cm ∧ activeCount (prepared env fileLoc cm).transferMonitoring + 1 =
        activeCount cm.transferMonitoring) := by
  unfold DrawnApart
  cases hfound : findDl env.order fileLoc cm with
  | some entry =>
    left
    rw [prepared_of_found hfound]
    exact ⟨fun hnone => absurd hnone (Option.some_ne_none entry), rfl⟩
  | none =>
    rw [prepared_of_new hfound]
    dsimp only
    -- the new entry is not active, so only one that it replaces can count
    rw [activeCount_assign, if_neg Bool.false_ne_true, Nat.add_zero]
    rcases activeCount_eraseKey h env.drawnStat with ⟨hapart, hcount⟩ | ⟨hover, hcount⟩
    · exact .inl ⟨fun _ => hapart, hcount⟩
    · exact .inr ⟨fun hall => hover (hall rfl), hcount⟩

/-- The entry that a transfer is started for is not active. -/
theorem prepared_inactive {env : Outside} {url fileLoc : Str} (hstarts : Starts env url fileLoc cm)
    {entry : Uuid × ActiveDownloads}
    (hentry : findDl env.order fileLoc (prepared env fileLoc cm) = some entry) :
    entry.2.isActive = false := by
  have hstart := hstarts.2.2
  cases hfound : findDl env.order fileLoc cm with
  | some entry' =>
    rw [prepared_of_found hfound, hfound, Option.some.injEq] at hentry
    rw [hfound] at hstart
    exact hentry ▸ hstart
  | none =>
    rw [prepared_of_new hfound] at hentry
    rcases findDl_some hentry with ⟨hmem, hfile⟩
    rcases mem_assign.mp hmem with ⟨hold, -⟩ | rfl
    · exact absurd hfile (findDl_none hfound entry hold)
    · rfl

theorem counted_newDl (h : Monitored cm.transferMonitoring) (hcounted : Counted cm) (env : Outside)
    (url fileLoc : Str) (resumeDl : Bool) :
    Counted (recvNewDl env url fileLoc resumeDl cm).1 ↔
      KeepsCount cm (.newDl env url fileLoc resumeDl) := by
  unfold KeepsCount
  have hprepared := activeCount_prepared h env fileLoc
  rcases recvNewDl_cases env url fileLoc resumeDl cm with
    ⟨hstarts, hrun⟩ | ⟨hstarts, hopens, handles, -, hrun⟩ | ⟨hstarts, hopens, entry, hentry, hrun⟩
  · -- nothing is started
    rw [hrun]
    constructor
    · intro _ hc
      exact absurd hc hstarts
    · intro _
      exact hcounted
  · -- `new_conn` throws: the counter is one too high
    rw [hrun]
    constructor
    · intro hc
      change (cm.activeDownloads + 1).toInt =
        (activeCount (prepared env fileLoc cm).transferMonitoring : Nat) at hc
      rw [toInt_add_one hcounted (by omega) (by omega)] at hc
      omega
    · intro hkeeps
      exact absurd (hkeeps hstarts).1 hopens
  · -- a connection is opened
    have hcount : activeCount
        (opened env url fileLoc (prepared env fileLoc cm) entry).transferMonitoring =
        activeCount (prepared env fileLoc cm).transferMonitoring + 1 := by
      have hmem := activeCount_mem (prepared_monitored h env fileLoc) (findDl_some hentry).1
      rw [prepared_inactive hstarts hentry, if_neg Bool.false_ne_true] at hmem
      rw [hmem]
      exact activeCount_assign _ _
    have hiff : Counted (opened env url fileLoc (prepared env fileLoc cm) entry) ↔
        activeCount (prepared env fileLoc cm).transferMonitoring =
            activeCount cm.transferMonitoring ∧
          activeCount cm.transferMonitoring + 1 < 2 ^ 15 := by
      rw [Counted, hcount]
      change ((prepared env fileLoc cm).activeDownloads + 1).toInt = _ ↔ _
      rw [prepared_activeDownloads, toInt_add_one hcounted (by omega) (by omega)]
      constructor
      · rintro ⟨heq, hsmall⟩
        exact ⟨Nat.succ.inj heq, hsmall⟩
      · rintro ⟨heq, hsmall⟩
        exact ⟨congrArg Nat.succ heq, hsmall⟩
    rw [hrun, hiff]
    constructor
    · rintro ⟨heq, hsmall⟩ -
      refine ⟨hopens, ?_, hsmall⟩
      rcases hprepared with ⟨hapart, -⟩ | ⟨-, hless⟩
      · exact hapart
      · omega
    · intro hkeeps
      rcases hkeeps hstarts with ⟨-, hapart, hsmall⟩
      refine ⟨?_, hsmall⟩
      rcases hprepared with ⟨-, heq⟩ | ⟨hover, -⟩
      · exact heq
      · exact absurd hapart hover

theorem counted_fileStream (h : Monitored cm.transferMonitoring) (hcounted : Counted cm)
    (ehOrder : IterOrder (Uuid × CurlInit)) (order : IterOrder (Uuid × ActiveDownloads)) :
    Counted (fileStream ehOrder order cm).1 ↔ KeepsCount cm (.fileStream ehOrder order) := by
  unfold KeepsCount
  rcases fileStream_cases ehOrder order cm with
    ⟨hnot, hrun, -⟩ | ⟨msg, conn, entry, hmsg, hrun⟩
  · rw [hrun]
    constructor
    · intro _ msg conn entry hmsg
      exact absurd ⟨msg, conn, entry, hmsg⟩ hnot
    · intro _
      exact hcounted
  · have hcount := activeCount_mem h (findDl_some hmsg.2.2).1
    have hlower := toInt_sub_one hcounted
    rw [hrun]
    constructor
    · intro hc msg' conn' entry' hmsg'
      -- the searches have one answer
      have hconn : conn' = conn := by
        have hhead := hmsg'.1
        rw [hmsg.1, Option.some.injEq] at hhead
        have hfind := hmsg'.2.1
        rw [← hhead, hmsg.2.1, Option.some.injEq] at hfind
        exact hfind.symm
      have hentry : entry' = entry := by
        have hfind := hmsg'.2.2
        rw [hconn, hmsg.2.2, Option.some.injEq] at hfind
        exact hfind.symm
      rw [hentry]
      by_contra hnot
      rw [if_neg hnot, Nat.add_zero] at hcount
      apply hlower.2
      rw [hcount]
      exact hc
    · intro hkeeps
      rw [hkeeps msg conn entry hmsg, if_pos rfl] at hcount
      change (cm.activeDownloads - 1).toInt =
        (activeCount (eraseKey cm.transferMonitoring entry.1) : Nat)
      rw [hlower.1 (by omega), hcount]
      rfl

theorem counted_stopDl (h : Monitored cm.transferMonitoring) (hcounted : Counted cm)
    (ehOrder : IterOrder (Uuid × CurlInit)) (order : IterOrder (Uuid × ActiveDownloads))
    (fileLoc : Str) : Counted (step cm (.stopDl ehOrder order fileLoc)) := by
  rcases step_stopDl ehOrder order cm fileLoc with hrun | ⟨conn, entry, -, hfound, hactive, hrun⟩
  · rw [hrun]
    exact hcounted
  · have hcount := activeCount_mem h (findDl_some hfound).1
    have hafter : activeCount (stopped cm conn entry).transferMonitoring =
        activeCount (eraseKey cm.transferMonitoring entry.1) := activeCount_assign _ _
    rw [hactive, if_pos rfl] at hcount
    rw [hrun, Counted, hafter]
    change (cm.activeDownloads - 1).toInt = _
    rw [(toInt_sub_one hcounted).1 (by omega), hcount]
    rfl

/-- **One step.** It keeps the count exactly under its condition. -/
theorem step_counted (cm : CurlMulti) (a : Action) (h : Monitored cm.transferMonitoring)
    (hcounted : Counted cm) : Counted (step cm a) ↔ KeepsCount cm a := by
  cases a with
  | newDl env url fileLoc resumeDl => exact counted_newDl h hcounted env url fileLoc resumeDl
  | transferEnds msg =>
    constructor
    · intro _
      trivial
    · intro _
      exact hcounted
  | fileStream ehOrder order => exact counted_fileStream h hcounted ehOrder order
  | stopDl ehOrder order fileLoc =>
    constructor
    · intro _
      trivial
    · intro _
      exact counted_stopDl h hcounted ehOrder order fileLoc

end Steps

/-! ## Runs -/

theorem monitored_start : Monitored CurlMulti.start.transferMonitoring :=
  ⟨List.nodup_nil, List.nodup_nil⟩

/-- **All states of a run.** The counter is the number of active transfers in each of
them exactly if each step meets its condition. -/
theorem activeDownloads_counts_iff (as : List Action) :
    EachState step Counted CurlMulti.start as ↔ EachStep step KeepsCount CurlMulti.start as := by
  refine @eachState_iff_eachStep _ _ step (fun cm => Monitored cm.transferMonitoring) Counted
    KeepsCount step_monitored step_counted _ monitored_start ?_ as
  decide

/-- A download is resumed whose file is not there: `new_conn` throws for the offset -1, and
the counter stays at one with no active transfer. -/
theorem recvNewDl_missing_file :
    (step CurlMulti.start
        (.newDl { sampleOutside 1 2 with fileSize := -1 } sampleUrl sampleFile
          true)).activeDownloads =
        1 ∧
      activeCount (step CurlMulti.start
        (.newDl { sampleOutside 1 2 with fileSize := -1 } sampleUrl sampleFile
          true)).transferMonitoring = 0 ∧
      ¬ EachState step Counted CurlMulti.start
        [.newDl { sampleOutside 1 2 with fileSize := -1 } sampleUrl sampleFile true] := by
  refine ⟨by decide +kernel, by decide +kernel, ?_⟩
  rintro ⟨-, hcounted⟩
  revert hcounted
  change ¬ Counted _
  decide +kernel

end FyreDL.Transfer
