import FyreDL.Torrent.Session

/-!
# FyreDL.Torrent.Attribution — whose statistics are emitted

A state update lists the torrents that have changed, in an order of libtorrent's own.
`run_session_bckgrnd` counts through `lt_to_handle` and emits, for the torrent at each
position, the status that is listed at this position.

* `Aligned` — the torrents of the map and the listed ones agree, position by position. With
  valid handles the paths of the map are the first ones of the list (`aligned_iff_prefix`).
* `attributed_iff` — in all rounds of a run each emitted status is of the torrent with the
  emitted path, and is there, exactly if each update that is reached is aligned with the map.
* `recvProcToStats_attributed` — then the id that is emitted further on is that of this
  torrent too, if it has been cached for its path.
-/

namespace FyreDL.Torrent

open Lib

variable {I : Type} {savePath : I → Str} {valid : I → Bool}

/-- Each status is emitted with the path of its torrent. -/
def OwnStats (savePath : I → Str) (effects : List (Effect I)) : Prop :=
  ∀ path s, .xferInternalStats path s ∈ effects → savePath s.handle = path

/-- From `s` on the loop has emitted such statistics only, and has not read behind the end of
a status vector. -/
structure Attributed {α : Type} (s : TorrentSession savePath)
    (r : Exit Str α × TorrentSession savePath) : Prop where
  inside : r.1 ≠ .stuck
  own : ∃ new, r.2.performed = s.performed ++ new ∧ OwnStats savePath new

/-- The status at the position of each torrent is that of a torrent with its path, up to a
torrent with an invalid handle. -/
def Aligned (savePath : I → Str) (valid : I → Bool) :
    List (Str × I) → List (ListedStatus I) → Prop
  | [], _ => True
  | _ :: _, [] => False
  | e :: rest, s :: status =>
    valid e.2 = true → savePath s.handle = e.1 ∧ Aligned savePath valid rest status

/-- An update that lists no torrent is passed over. -/
def SessionAlert.Aligned (savePath : I → Str) (valid : I → Bool) (entries : List (Str × I)) :
    SessionAlert I → Prop
  | .stateUpdate status => status = [] ∨ Torrent.Aligned savePath valid entries status
  | _ => True

/-- The updates that the loop gets to are aligned. -/
def AlignedBatch (savePath : I → Str) (valid : I → Bool) (entries : List (Str × I)) :
    List (SessionAlert I) → Prop
  | [] => True
  | alert :: rest => alert.Aligned savePath valid entries ∧
    (alert.GoesOn valid entries → AlignedBatch savePath valid entries rest)

section OwnStats

variable {effects : List (Effect I)}

theorem ownStats_nil : OwnStats savePath [] := fun _ _ h => absurd h List.not_mem_nil

theorem ownStats_append {effects' : List (Effect I)} :
    OwnStats savePath (effects ++ effects') ↔
      OwnStats savePath effects ∧ OwnStats savePath effects' := by
  constructor
  · intro h
    exact ⟨fun path s hin => h path s (List.mem_append_left _ hin),
      fun path s hin => h path s (List.mem_append_right _ hin)⟩
  · rintro ⟨h, h'⟩ path s hin
    rcases List.mem_append.mp hin with hin | hin
    · exact h path s hin
    · exact h' path s hin

theorem ownStats_emit {path : Str} {s : ListedStatus I} :
    OwnStats savePath (.xferInternalStats path s :: effects) ↔
      savePath s.handle = path ∧ OwnStats savePath effects := by
  constructor
  · intro h
    exact ⟨h path s List.mem_cons_self, fun path' s' hin => h path' s' (List.mem_cons_of_mem _ hin)⟩
  · rintro ⟨hown, h⟩ path' s' hin
    rcases List.mem_cons.mp hin with heq | hin
    · cases heq
      exact hown
    · exact h path' s' hin

/-- Effects that are no statistics. -/
theorem ownStats_of_answers (h : ∀ effect ∈ effects, effect.isAnswer = true) :
    OwnStats savePath effects := by
  intro path s hin
  cases h _ hin

end OwnStats

/-- What is attributed, in terms of what a loop has performed. -/
theorem attributed_iff_own {α : Type} {s s' : TorrentSession savePath} {exit : Exit Str α}
    {new : List (Effect I)} (h : s'.performed = s.performed ++ new) :
    Attributed s (exit, s') ↔ exit ≠ .stuck ∧ OwnStats savePath new := by
  constructor
  · rintro ⟨hinside, new', hnew', hown⟩
    dsimp only at hnew'
    rw [h, List.append_cancel_left_eq] at hnew'
    rw [hnew']
    exact ⟨hinside, hown⟩
  · rintro ⟨hinside, hown⟩
    exact ⟨hinside, new, h, hown⟩

/-- **One update.** -/
theorem emitStats_attributed {entries : List (Str × I)} (hkeyed : ∀ e ∈ entries, e.1 = savePath e.2)
    (status : List (ListedStatus I)) (p : Nat) (s : TorrentSession savePath) :
    ∃ new, (emitStats savePath valid status p entries s).2.performed = s.performed ++ new ∧
      ((emitStats savePath valid status p entries s).1 ≠ .stuck ∧ OwnStats savePath new ↔
        Aligned savePath valid entries (status.drop p)) := by
  induction entries generalizing p s with
  | nil =>
    refine ⟨[], (List.append_nil _).symm, ?_⟩
    exact iff_of_true ⟨nofun, ownStats_nil⟩ (by rw [Aligned]; trivial)
  | cons e rest ih =>
    have hrest : ∀ e ∈ rest, e.1 = savePath e.2 := fun e he => hkeyed e (List.mem_cons_of_mem _ he)
    cases hp : status[p]? with
    | none =>
      have hlen : status.length ≤ p := List.getElem?_eq_none_iff.mp hp
      rw [emitStats_behind hlen, List.drop_eq_nil_of_le hlen]
      exact ⟨[], (List.append_nil _).symm, iff_of_false (fun h => h.1 rfl) id⟩
    | some st =>
      have hdrop : status.drop p = st :: status.drop (p + 1) := by
        rcases List.getElem?_eq_some_iff.mp hp with ⟨hlt, rfl⟩
        exact List.drop_eq_getElem_cons hlt
      rw [hdrop, Aligned]
      cases hvalid : valid e.2 with
      | false =>
        rw [emitStats_invalid hp hvalid]
        refine ⟨[], (List.append_nil _).symm, iff_of_true ⟨nofun, ownStats_nil⟩ ?_⟩
        intro h
        cases h
      | true =>
        rw [emitStats_valid hp hvalid]
        rcases ih hrest (p + 1)
          { s with performed := s.performed ++ [.xferInternalStats (savePath e.2) st] } with
          ⟨new, hnew, hiff⟩
        refine ⟨.xferInternalStats (savePath e.2) st :: new, ?_, ?_⟩
        · rw [hnew, List.append_assoc]
          rfl
        · rw [ownStats_emit, hkeyed e List.mem_cons_self, ← hiff]
          constructor
          · rintro ⟨hinside, hown, hnew⟩ -
            exact ⟨hown, hinside, hnew⟩
          · intro h
            exact ⟨(h rfl).2.1, (h rfl).1, (h rfl).2.2⟩

/-- What a part of the loop has performed, and whether it is attributed. -/
def AttributedIff {α : Type} (s : TorrentSession savePath)
    (r : Exit Str α × TorrentSession savePath) (aligned : Prop) : Prop :=
  ∃ new, r.2.performed = s.performed ++ new ∧ (r.1 ≠ .stuck ∧ OwnStats savePath new ↔ aligned)

theorem AttributedIff.iff {α : Type} {s : TorrentSession savePath}
    {r : Exit Str α × TorrentSession savePath} {aligned : Prop} (h : AttributedIff s r aligned) :
    Attributed s r ↔ aligned := by
  rcases h with ⟨new, hnew, hiff⟩
  exact (attributed_iff_own hnew).trans hiff

/-- A part that emits nothing. -/
theorem attributedIff_quiet {α : Type} {s s' : TorrentSession savePath} {exit : Exit Str α}
    {new : List (Effect I)} (hexit : exit ≠ .stuck) (hnew : s'.performed = s.performed ++ new)
    (hquiet : ∀ effect ∈ new, effect.isAnswer = true) : AttributedIff s (exit, s') True :=
  ⟨new, hnew, iff_of_true ⟨hexit, ownStats_of_answers hquiet⟩ trivial⟩

theorem attributedIff_nothing {α : Type} {s : TorrentSession savePath} {exit : Exit Str α}
    (hexit : exit ≠ .stuck) : AttributedIff s (exit, s) True :=
  attributedIff_quiet hexit (List.append_nil _).symm fun _ h => absurd h List.not_mem_nil

/-- **One alert.** -/
theorem answerAlert_attributed (valid : I → Bool) (alert : SessionAlert I)
    (s : TorrentSession savePath) :
    AttributedIff s (answerAlert savePath valid alert s)
      (alert.Aligned savePath valid s.ltToHandle.entries) := by
  have hnothing : ∀ leaves : Leaves, AttributedIff s (Exit.ret leaves, s) True :=
    fun leaves => attributedIff_nothing (Exit.ret_ne_stuck leaves)
  have hmessage : ∀ message, AttributedIff s (endsWith savePath message s) True := by
    intro message
    unfold endsWith
    split
    · exact hnothing .next
    · exact hnothing .done
  cases alert with
  | torrentFinished handle =>
    rw [answerAlert, requestResumeData, pathOf]
    cases valid handle with
    | false => exact attributedIff_nothing (Exit.throw_ne_stuck _)
    | true =>
      refine attributedIff_quiet (Exit.ret_ne_stuck _) (List.append_assoc _ _ _) ?_
      simp [Effect.isAnswer]
  | torrentError => exact hnothing .reset
  | saveResumeData handle torrentName resumeData =>
    rw [answerAlert, pathOf]
    cases valid handle with
    | false => exact attributedIff_nothing (Exit.throw_ne_stuck _)
    | true =>
      refine attributedIff_quiet (Exit.ret_ne_stuck _) rfl ?_
      simp [Effect.isAnswer]
  | stateUpdate status =>
    rw [answerAlert]
    split
    · rename_i hempty
      rcases hnothing Leaves.next with ⟨new, hnew, hiff⟩
      exact ⟨new, hnew, hiff.trans (iff_of_true trivial (.inl hempty))⟩
    · rename_i hne
      rcases emitStats_attributed s.ltToHandle.keyed status 0 s with ⟨new, hnew, hiff⟩
      rw [Proc.state_bind, Proc.bind_pure_value]
      refine ⟨new, hnew, ?_⟩
      rw [ne_eq, Exit.withValue_eq_stuck]
      exact hiff.trans (or_iff_right hne).symm
  | torrentRemoved message => exact hmessage message
  | torrentDeleted message => exact hmessage message
  | torrentPaused message => exact hmessage message
  | other => exact hnothing .next

/-- **One batch.** -/
theorem answerAlerts_attributed (valid : I → Bool) (alerts : List (SessionAlert I))
    (s : TorrentSession savePath) :
    AttributedIff s (answerAlerts savePath valid alerts s)
      (AlignedBatch savePath valid s.ltToHandle.entries alerts) := by
  induction alerts generalizing s with
  | nil => exact attributedIff_nothing (Exit.ret_ne_stuck _)
  | cons alert rest ih =>
    have hspec := answerAlert_spec valid alert s
    rcases answerAlert_attributed valid alert s with ⟨new, hnew, hiff⟩
    rcases hanswer : answerAlert savePath valid alert s with ⟨exit, s₁⟩
    rw [hanswer] at hspec hnew hiff
    rw [AlignedBatch]
    by_cases hgo : alert.GoesOn valid s.ltToHandle.entries
    · have hnext : exit = .ret .next := hspec.goesOn.mpr hgo
      rcases ih s₁ with ⟨later, hlater, hrest⟩
      rw [hspec.kept hgo] at hrest
      rw [hnext] at hanswer hiff
      rw [answerAlerts_goesOn hanswer]
      refine ⟨new ++ later, ?_, ?_⟩
      · rw [hlater, hnew, List.append_assoc]
      · rw [ownStats_append, ← hiff]
        constructor
        · rintro ⟨hinside, hown, hown'⟩
          exact ⟨⟨nofun, hown⟩, fun _ => hrest.mp ⟨hinside, hown'⟩⟩
        · rintro ⟨⟨-, hown⟩, h⟩
          exact ⟨(hrest.mpr (h hgo)).1, hown, (hrest.mpr (h hgo)).2⟩
    · -- what stands behind is not reached
      rw [answerAlerts_leaves hanswer fun hnext => hgo (hspec.goesOn.mp hnext)]
      exact ⟨new, hnew, hiff.trans ⟨fun h => ⟨h, fun h' => absurd h' hgo⟩, And.left⟩⟩

/-- With valid handles, the paths of the map are the first ones of the list. -/
theorem aligned_iff_prefix {entries : List (Str × I)} (hvalid : ∀ e ∈ entries, valid e.2 = true)
    (status : List (ListedStatus I)) :
    Aligned savePath valid entries status ↔
      entries.map Prod.fst <+: status.map fun s => savePath s.handle := by
  induction entries generalizing status with
  | nil =>
    rw [Aligned]
    exact iff_of_true trivial List.nil_prefix
  | cons e rest ih =>
    have hrest : ∀ e ∈ rest, valid e.2 = true := fun e he => hvalid e (List.mem_cons_of_mem _ he)
    cases status with
    | nil =>
      rw [Aligned]
      exact iff_of_false id fun h => List.cons_ne_nil _ _ (List.prefix_nil.mp h)
    | cons s status =>
      rw [Aligned, List.map_cons, List.map_cons, List.cons_prefix_cons, ← ih hrest status]
      constructor
      · intro h
        exact ⟨(h (hvalid e List.mem_cons_self)).1.symm, (h (hvalid e List.mem_cons_self)).2⟩
      · rintro ⟨hpath, h⟩ -
        exact ⟨hpath.symm, h⟩

/-! ## Runs -/

/-- The statistics of a round are attributed to their torrents. -/
def AttributesAll (s : SessionLoop savePath) : SessionAction I → Prop
  | .round r => s.running = true →
    Attributed s.session (answerAlerts savePath r.valid r.alerts s.session)
  | .insert _ => True

/-- The updates that a round gets to are aligned with the map. -/
def AlignsAll (s : SessionLoop savePath) : SessionAction I → Prop
  | .round r => s.running = true →
    AlignedBatch savePath r.valid s.session.ltToHandle.entries r.alerts
  | .insert _ => True

/-- **The statistics are attributed exactly in the runs of such updates**, whatever the map is
at the beginning. -/
theorem attributed_iff (s : SessionLoop savePath) (as : List (SessionAction I)) :
    EachStep SessionLoop.step AttributesAll s as ↔ EachStep SessionLoop.step AlignsAll s as := by
  refine eachStep_congr ?_ s as
  intro s a
  cases a with
  | round r =>
    exact imp_congr_right fun _ => (answerAlerts_attributed r.valid r.alerts s.session).iff
  | insert handle => exact Iff.rfl

/-- What is attributed is passed on with the id of its torrent, if the right one is cached. -/
theorem recvProcToStats_attributed {torrents : I → GeneralInfo} {client : GkTorrentClient I}
    (hlabelled : Labelled torrents client) {effects : List (Effect I)}
    (hown : OwnStats (fun i => (torrents i).downDest) effects) {path : Str} {s : ListedStatus I}
    (hemitted : .xferInternalStats path s ∈ effects) {info : TorrentResumeInfo}
    (hstats : client.recvProcToStats path s.status = .ok info) :
    info.uniqueId = (torrents s.handle).uniqueId ∧ info.savePath = path := by
  have hpath : (torrents s.handle).downDest = path := hown path s hemitted
  rw [← hpath] at hstats ⊢
  exact recvProcToStats_labelled hlabelled hstats

/-- A torrent that is downloading. -/
def changedStatus : TorrentStatus := ⟨.downloading, 500000, 0, 1024, 7, 0, 0, 4096, 0⟩

/-- An update for the second one of the two torrents. -/
def secondChanged : Round Bool :=
  ⟨[.stateUpdate [⟨true, changedStatus⟩]], fun _ => true, 0, 0⟩

/-- Its status is emitted for the first torrent, and the next one is read behind the end. -/
theorem attributed_partial :
    (answerAlerts _ secondChanged.valid secondChanged.alerts twoLoop.session).1 = .stuck ∧
      (twoLoop.round secondChanged).session.performed =
        [.xferInternalStats "/dl/a".toList ⟨true, changedStatus⟩] ∧
      ¬ EachStep SessionLoop.step AttributesAll twoLoop [.round secondChanged] := by
  have hstuck : (answerAlerts _ secondChanged.valid secondChanged.alerts twoLoop.session).1 =
      .stuck := by decide +kernel
  refine ⟨hstuck, by decide +kernel, ?_⟩
  rintro ⟨hround, -⟩
  exact (hround rfl).inside hstuck

end FyreDL.Torrent
