import TaskScheduler.Interleave.System
import TaskScheduler.Interleave.Updates

/-! Consumers that interleave statement by statement, beside other transactions that run at once.  A
consumer creates a run only under the lock of its job and while the job executes nothing, and no
transaction lets a run execute again after its end, so that a job never executes twice. -/

namespace TaskScheduler

open Lib

/-! ### What the sessions of a kind issue -/

namespace Sys

variable {cfg : Config} {σ σ' : Sys}

/-- What every statement of a transaction keeps of its session holds in every open session, if the
transactions that are begun issue only such statements. -/
theorem Reach.sessions {ok : Sys → Act → Prop} {P : Kind → Stmt → Prop} {I : Kind → Session → Prop}
    (hbegin : ∀ σ k at_, ok σ (.start k at_) → (k.prog cfg).Issues (P k) ∧ I k { start := at_ })
    (hkeep : ∀ k s pick others t seq ses r seq' ses', P k s → I k ses →
      Stmt.exec pick others t s (seq, ses) = some (r, seq', ses') → I k ses')
    (h : Reach cfg ok σ) {i : Nat} {o : Open} (ho : σ.sessions[i]? = some (some o)) :
    o.prog.Issues (P o.kind) ∧ I o.kind o.ses := by
  induction h generalizing i o with
  | init => simp at ho
  | @step σ σ' a _ hok hstep ih =>
    cases a with
    | atomic k start pick =>
      obtain ⟨-, ⟨_, -, rfl⟩ | ⟨_, _, _, -, rfl⟩⟩ := step_atomic hstep <;> exact ih ho
    | start k at_ =>
      simp only [Sys.step] at hstep
      split at hstep <;> cases hstep
      rcases get_append ho with ho | ⟨-, rfl⟩
      · exact ih ho
      · exact hbegin σ k at_ hok
    | statement j pick =>
      simp only [Sys.step] at hstep
      split at hstep
      · next k s rest ses hj =>
        split at hstep
        · cases hstep
        · next r seq' ses' hexec =>
          cases hstep
          rcases get_set ho with ⟨-, heq⟩ | ⟨-, ho⟩
          · cases heq
            obtain ⟨⟨hs, hrest⟩, hI⟩ := ih hj
            exact ⟨hrest r, hkeep k s pick _ _ _ _ r _ _ hs hI hexec⟩
          · exact ih ho
      · cases hstep
    | commit j | abort j =>
      simp only [Sys.step] at hstep
      split at hstep <;> cases hstep
      rcases get_set ho with ⟨-, hnone⟩ | ⟨-, ho⟩
      · cases hnone
      · exact ih ho
    | crash runId jobId =>
      cases hstep
      exact ih ho

end Sys

/-! ### The statements of the consumer -/

/-- A transaction of the continuation consumer. -/
def Kind.consumes : Kind → Bool
  | .poll _ _ | .deliver _ _ => true
  | _ => false

/-- A write of the consumer. -/
def Write.Continues : Write → Prop
  | .updateRuns _ _ => False
  | .insertEvent row => row.eventType.terminal = false
  | _ => True

/-- The writes of a session of the consumer, now and at its savepoint. -/
structure Session.Continues (ses : Session) : Prop where
  now : ∀ w ∈ ses.writes, w.Continues
  saved : ∀ ws held, ses.saved = some (ws, held) → ∀ w ∈ ws, w.Continues

theorem Session.Continues.write {ses : Session} (h : ses.Continues) {w : Write} (hw : w.Continues) :
    (ses.write w).Continues := by
  refine ⟨fun v hv => ?_, h.saved⟩
  rcases List.mem_append.mp hv with hv | hv
  · exact h.now v hv
  · exact List.mem_singleton.mp hv ▸ hw

theorem exec_continues {pick : Nat → Bool} {others : List Session} {t : Tables} {seq seq' : Seq}
    {ses ses' : Session} (s : Stmt) {r : Reply s} (hs : s.Continues True) (h : ses.Continues)
    (hexec : s.exec pick others t (seq, ses) = some (r, seq', ses')) : ses'.Continues := by
  cases s with
  | lockRuns p n | updateRuns p set => exact hs.elim
  | insertJob row | insertRun row =>
    simp only [Stmt.exec] at hexec
    split at hexec
    · cases hexec
    · split at hexec <;> cases hexec
      · exact h
      · exact h.write trivial
  | updateJobs p set =>
    simp only [Stmt.exec] at hexec
    split at hexec <;> cases hexec
    exact ⟨(h.write (w := .updateJobs ((ses.view t).jobs.filter p |>.map (·.jobId)) set) trivial).now,
      h.saved⟩
  | updateEvents p set =>
    simp only [Stmt.exec] at hexec
    split at hexec <;> cases hexec
    exact ⟨(h.write (w := .updateEvents ((ses.view t).events.filter p |>.map (·.eventId)) set)
      trivial).now, h.saved⟩
  | insertEvent row =>
    cases hexec
    exact h.write hs
  | advisoryLock key =>
    simp only [Stmt.exec] at hexec
    split at hexec <;> cases hexec
    exact ⟨h.now, h.saved⟩
  | savepoint =>
    cases hexec
    refine ⟨h.now, fun ws held heq => ?_⟩
    cases heq
    exact h.now
  | rollbackTo =>
    simp only [Stmt.exec] at hexec
    split at hexec
    · cases hexec
      exact h
    · next ws held heq =>
      cases hexec
      exact ⟨h.saved ws held heq, fun _ _ hnone => by cases hnone⟩
  | release =>
    cases hexec
    exact ⟨h.now, fun _ _ hnone => by cases hnone⟩
  | selectJobs p | loadJobs p | ancestors a b | selectRuns p | selectEvents p n =>
    cases hexec
    exact ⟨h.now, h.saved⟩

/-- A transaction of the consumer issues only its statements. -/
theorem Kind.continues {k : Kind} (hk : k.consumes = true) (cfg : Config) :
    (k.prog cfg).Issues (Stmt.Continues True) := by
  cases k with
  | poll now n =>
    exact (pollOnce_continues trivial cfg.libs now cfg.depth n).bind fun _ => trivial
  | deliver now event =>
    exact (processEvent_continues trivial cfg.libs now cfg.depth event).bind fun _ => trivial
  | _ => cases hk

/-! ### The runs that execute -/

/-- A job has at most one executing run. -/
def Tables.Single (t : Tables) : Prop :=
  ∀ r ∈ t.runs, ∀ r' ∈ t.runs, r.jobId = r'.jobId → r.status.executing = true →
    r'.status.executing = true → r.runId = r'.runId

namespace Tables.Single

variable {t t' : Tables}

theorem addRun (h : t.Single) {row : JobRun} (hidle : ¬t.Executing row.jobId)
    (hruns : t'.runs = t.runs ++ [row]) : t'.Single := by
  intro r hr r' hr' hjob hex hex'
  rw [hruns] at hr hr'
  rcases List.mem_append.mp hr with hr | hr <;> rcases List.mem_append.mp hr' with hr' | hr'
  · exact h r hr r' hr' hjob hex hex'
  · rw [List.mem_singleton.mp hr'] at hjob
    exact absurd ⟨r, hr, hjob, hex⟩ hidle
  · rw [List.mem_singleton.mp hr] at hjob
    exact absurd ⟨r', hr', hjob.symm, hex'⟩ hidle
  · rw [List.mem_singleton.mp hr, List.mem_singleton.mp hr']

theorem move (h : t.Single) (hmove : ∀ r' ∈ t'.runs, ∃ r ∈ t.runs, r.SameRun r' ∧
    (r'.status.executing = true → r.status.executing = true)) : t'.Single := by
  intro a' ha' b' hb' hjob hexa hexb
  obtain ⟨a, ha, hsa, hla⟩ := hmove a' ha'
  obtain ⟨b, hb, hsb, hlb⟩ := hmove b' hb'
  have hid := h a ha b hb (by rw [← hsa.jobId, ← hsb.jobId, hjob]) (hla hexa) (hlb hexb)
  rw [hsa.runId, hsb.runId, hid]

end Tables.Single

/-- What a change does to the runs: it adds one of a job that executes nothing, or none that ended
executes after it. -/
theorem Change.runs_cases {m : Mode} {libs : Libs} {L L' : Ledger} (hc : Change m libs L L')
    (hk : Coherent L.tables L.seq) :
    (∃ row : JobRun, L'.tables.runs = L.tables.runs ++ [row] ∧ row.runId = L.seq.runs ∧
      ¬L.tables.Executing row.jobId) ∨
    ∀ r' ∈ L'.tables.runs, ∃ r ∈ L.tables.runs, r.SameRun r' ∧
      (r'.status.executing = true → r.status.executing = true) := by
  have hsame : ∀ r' ∈ L.tables.runs, ∃ r ∈ L.tables.runs, r.SameRun r' ∧
      (r'.status.executing = true → r.status.executing = true) := fun r hr => ⟨r, hr, .refl r, id⟩
  have hset : ∀ (r : JobRun) (set : JobRun → JobRun), r ∈ L.tables.runs → r.SameRun (set r) →
      ((set r).status.executing = true → r.status.executing = true) →
      ∀ r' ∈ (L.tables.setRun r.runId set).runs, ∃ x ∈ L.tables.runs, x.SameRun r' ∧
        (r'.status.executing = true → x.status.executing = true) := by
    intro r set hr hs hlive r' hr'
    obtain ⟨x, hx, rfl⟩ := Tables.mem_setRun.mp hr'
    split
    · next hid =>
      rw [hk.run_eq hx hr hid]
      exact ⟨r, hr, hs, hlive⟩
    · exact hsame x hx
  cases hc with
  | spawn hjob hid hactive hidle hclash hcause =>
    refine .inl ⟨_, rfl, rfl, ?_⟩
    intro hex
    exact hidle (hid ▸ hex)
  | move hdue hr hs htrans hends => exact .inr (hset _ _ hr hs fun _ => htrans.executing)
  | touch hr hs hstatus => exact .inr (hset _ _ hr hs fun h => hstatus ▸ h)
  | _ => exact .inr hsame

theorem Change.seq_le {m : Mode} {libs : Libs} {L L' : Ledger} (hc : Change m libs L L') :
    L.seq.le L'.seq := by
  cases hc with
  | burn hle => exact hle
  | addJob => exact ⟨Nat.le_succ _, le_rfl, le_rfl⟩
  | spawn => exact ⟨le_rfl, Nat.le_succ _, Nat.le_succ _⟩
  | move | skip => exact ⟨le_rfl, le_rfl, Nat.le_succ _⟩
  | _ => exact Seq.le_refl _

theorem Changes.single {m : Mode} {libs : Libs} {L L' : Ledger} (h : Changes m libs L L')
    (hk : Coherent L.tables L.seq) (hs : L.tables.Single) : L'.tables.Single := by
  refine (h.invariant (I := fun L => Coherent L.tables L.seq ∧ L.tables.Single)
    (fun L L' hI hc => ⟨hc.coherent hI.1, ?_⟩) ⟨hk, hs⟩).2
  rcases hc.runs_cases hI.1 with ⟨row, hruns, -, hidle⟩ | hmove
  · exact hI.2.addRun hidle hruns
  · exact hI.2.move hmove

theorem Changes.noRevival {m : Mode} {libs : Libs} {L L' : Ledger} (h : Changes m libs L L')
    (hk : Coherent L.tables L.seq) : NoRevival L.tables L'.tables := by
  have hend := h.invariant (I := fun L' => Coherent L'.tables L'.seq ∧ L.seq.le L'.seq ∧
    NoRevival L.tables L'.tables) (fun L₁ L₂ hI hc => ?_) ⟨hk, Seq.le_refl _, ?_⟩
  · exact hend.2.2
  · obtain ⟨hk₁, hle, hlive⟩ := hI
    refine ⟨hc.coherent hk₁, Seq.le_trans hle hc.seq_le, fun r hr r₂ hr₂ hid hex => ?_⟩
    have hold : ∀ r₁ ∈ L₁.tables.runs, r₁.SameRun r₂ → r₁.status.executing = true →
        r.status.executing = true := fun r₁ hr₁ hs hex₁ =>
      hlive r hr r₁ hr₁ (hs.runId.symm.trans hid) hex₁
    rcases hc.runs_cases hk₁ with ⟨row, hruns, hrow, -⟩ | hmove
    · rw [hruns] at hr₂
      rcases List.mem_append.mp hr₂ with hr₂ | hr₂
      · exact hold r₂ hr₂ (.refl _) hex
      · -- a new run has a key of its own
        have hbelow := hk.runs_below r hr
        have hseq := hle.2.1
        rw [List.mem_singleton.mp hr₂, hrow] at hid
        omega
    · obtain ⟨r₁, hr₁, hs, hlive₁⟩ := hmove r₂ hr₂
      exact hold r₁ hr₁ hs (hlive₁ hex)
  · intro r hr r' hr' hid hex
    rwa [← hk.run_eq hr' hr hid]

/-! ### The commit of a consumer -/

/-- The terms of a system in which no run executes again after its end. -/
def Terms.steady : Terms := ⟨True, False, fun _ => True, fun _ _ => True, fun _ _ => True⟩

theorem Terms.steady_stable : Terms.steady.Stable := fun _ _ _ _ _ h => h

/-- What the writes of a consumer do to the runs: they add runs of jobs that execute nothing. -/
theorem continues_runs {libs : Libs} {k : Kind} {held : Held} {loaded : List Job} {ws : List Write}
    {t : Tables} (h : Replays Write.apply (Valid .steady libs k held loaded) ws t)
    (hws : ∀ w ∈ ws, w.Continues) :
    t.runs <+: (Write.applyAll ws t).runs ∧ (t.Single → (Write.applyAll ws t).Single) := by
  have hend := h.invariant (P := fun t' => t.runs <+: t'.runs ∧ (t.Single → t'.Single))
    (fun t₁ w hw hI hv => ?_) ⟨List.prefix_rfl, id⟩
  · exact hend
  · have hc := hws w hw
    cases w with
    | insertRun row =>
      exact ⟨hI.1.trans (List.prefix_append _ _),
        fun hs => (hI.2 hs).addRun (hv.idle trivial) rfl⟩
    | updateRuns ids set => exact hc.elim
    | _ => exact hI

/-! ### The system -/

namespace Sys

variable {cfg : Config} {σ σ' : Sys}

/-- A step of the system whose consumers interleave statement by statement, while its other
transactions run at once and Sweep C takes only runs of crashed workers. -/
def ConsumersOk (σ : Sys) : Act → Prop
  | .atomic k _ pick => k.sparesLive σ pick
  | .start k _ => k.consumes = true
  | _ => True

/-- An open transaction is one of a consumer, and has made only its writes. -/
theorem Reach.consumer (h : Reach cfg ConsumersOk σ) {i : Nat} {o : Open}
    (ho : σ.sessions[i]? = some (some o)) : o.kind.consumes = true ∧ o.ses.Continues :=
  (h.sessions (P := fun _ => Stmt.Continues True)
    (I := fun k ses => k.consumes = true ∧ ses.Continues)
    (fun _ k at_ hok => ⟨Kind.continues hok cfg, hok, ⟨by simp, by simp⟩⟩)
    (fun _ s _ _ _ _ _ _ _ _ hs hI hexec => ⟨hI.1, exec_continues s hs hI.2 hexec⟩) ho).2

/-- The invariant of the system. -/
structure Spawned (cfg : Config) (σ : Sys) : Prop where
  interleaved : σ.Interleaved .steady cfg
  live : σ.Live
  single : σ.tables.Single

theorem admitted_steady {a : Act} (ha : σ.ConsumersOk a) : a.Admitted .steady cfg σ := by
  cases a with
  | start k at_ => exact Terms.admits_plain id (fun _ _ => trivial) cfg.libs k
  | statement i pick => exact fun _ _ _ _ _ => trivial
  | _ => trivial

/-- One step: no run revives, the live workers keep their runs, and no job executes twice. -/
theorem Spawned.step (h : σ.Spawned cfg) (hreach : Reach cfg ConsumersOk σ) {a : Act}
    (ha : σ.ConsumersOk a) (hstep : σ.step cfg a = some σ') :
    NoRevival σ.tables σ'.tables ∧ σ'.Spawned cfg := by
  have hcoh := h.interleaved.coherent
  suffices hmove : NoRevival σ.tables σ'.tables ∧ σ'.Live ∧ σ'.tables.Single from
    ⟨hmove.1, h.interleaved.step Terms.steady_stable (admitted_steady ha) hstep trivial
      fun _ => hmove.1, hmove.2.1, hmove.2.2⟩
  have hstay : NoRevival σ.tables σ.tables := fun r hr r' hr' hid hex =>
    hcoh.run_eq hr' hr hid ▸ hex
  cases a with
  | atomic k start pick =>
    obtain ⟨hpath, hlive⟩ := atomic_changes hstep hcoh h.live ha
    exact ⟨hpath.noRevival hcoh, hlive, hpath.single hcoh h.single⟩
  | commit i =>
    simp only [Sys.step] at hstep
    split at hstep
    · next k won ses hi =>
      cases hstep
      obtain ⟨hk, hws⟩ := hreach.consumer hi
      have hc := h.interleaved.ends hi
      obtain ⟨hruns, hsingle⟩ := continues_runs hc.kept.now.replays hws.now
      have hcoh' := hc.coherent hcoh
      have hdone : k.done won σ.workers = σ.workers := by
        cases k with
        | claim now runId jobId => cases hk
        | _ => rfl
      refine ⟨fun r hr r' hr' hid hex => ?_, ⟨?_, fun w hw => ?_⟩, hsingle h.single⟩
      · exact hcoh'.run_eq hr' (hruns.subset hr) hid ▸ hex
      · rw [hdone]
        exact h.live.nodup
      · rw [hdone] at hw
        obtain ⟨r, hr, hrest⟩ := h.live.running w hw
        exact ⟨r, hruns.subset hr, hrest⟩
    · cases hstep
  | start k at_ =>
    simp only [Sys.step] at hstep
    split at hstep <;> cases hstep
    have htaken : k.taken σ.workers = σ.workers := by
      cases k with
      | finish now runId jobId outcome => cases ha
      | _ => rfl
    rw [htaken]
    exact ⟨hstay, ⟨h.live.nodup, h.live.running⟩, h.single⟩
  | statement i pick =>
    simp only [Sys.step] at hstep
    split at hstep
    · split at hstep <;> cases hstep
      exact ⟨hstay, ⟨h.live.nodup, h.live.running⟩, h.single⟩
    · cases hstep
  | abort i =>
    simp only [Sys.step] at hstep
    split at hstep <;> cases hstep
    exact ⟨hstay, ⟨h.live.nodup, h.live.running⟩, h.single⟩
  | crash runId jobId =>
    cases hstep
    exact ⟨hstay, ⟨h.live.nodup.sublist (List.erase_sublist.map _),
      fun w hw => h.live.running w (List.mem_of_mem_erase hw)⟩, h.single⟩

theorem Reach.spawned (h : Reach cfg ConsumersOk σ) : σ.Spawned cfg := by
  induction h with
  | init => exact ⟨.init trivial, ⟨by simp, by simp⟩, fun r hr => (by cases hr)⟩
  | step hreach ha hstep ih => exact (ih.step hreach ha hstep).2

/-- At most one executing run of each job, in every state that is reached. -/
theorem one_executing_run (h : Reach cfg ConsumersOk σ) (jobId : Nat) :
    (σ.tables.runs.filter fun r => r.jobId == jobId && r.status.executing).length ≤ 1 := by
  obtain ⟨hσ, -, hsingle⟩ := h.spawned
  generalize hload : (σ.tables.runs.filter fun r => r.jobId == jobId && r.status.executing) = load
  have hmem : ∀ r ∈ load, r ∈ σ.tables.runs ∧ r.jobId = jobId ∧ r.status.executing = true := by
    intro r hr
    rw [← hload] at hr
    simpa using hr
  have hnodup : (load.map (·.runId)).Nodup := by
    rw [← hload]
    exact hσ.coherent.runs.sublist (List.filter_sublist.map _)
  rcases load with _ | ⟨a, _ | ⟨b, rest⟩⟩
  · simp
  · simp
  · -- two of them have one key
    obtain ⟨ha, haj, hae⟩ := hmem a (by simp)
    obtain ⟨hb, hbj, hbe⟩ := hmem b (by simp)
    have hid := hsingle a ha b hb (haj.trans hbj.symm) hae hbe
    simp [hid] at hnodup

/-- Two consumers read the end of one run of a recurring job.  The second one waits for the lock of
the job until the first has committed the next run. -/
def raceRun : List Act :=
  [.at 0 (.create 0 (.echo (some "* * * * *") none none)),
    .at 0 (.publish 0 10),
    .at (60 * second) (.claim (60 * second) 1 1),
    .at (61 * second) (.finish (61 * second) 1 1 .success),
    .start (.poll (62 * second) 10) (62 * second),
    .start (.poll (62 * second) 10) (62 * second)] ++
    List.replicate 4 (.statement 1 fun _ => true) ++ List.replicate 12 (.statement 0 fun _ => true) ++
    [.commit 0] ++ List.replicate 6 (.statement 1 fun _ => true) ++ [.commit 1]

theorem raceRun_single : ∃ σ, runActs .minutely {} raceRun = some σ ∧
    σ.tables.runs.map (·.status) = [.succeeded, .pending] ∧
    (σ.tables.runs.filter fun r => r.jobId == 1 && r.status.executing).length ≤ 1 := by
  have hsome : (runActs .minutely {} raceRun).isSome = true := by decide +kernel
  obtain ⟨σ, hσ⟩ := Option.isSome_iff_exists.mp hsome
  refine ⟨σ, hσ, ?_, one_executing_run (Reach.init.runActs ?_ hσ) 1⟩
  · have hruns : (runActs .minutely {} raceRun).map (fun σ => σ.tables.runs.map (·.status)) =
        some [.succeeded, .pending] := by decide +kernel
    rw [hσ] at hruns
    exact Option.some.inj hruns
  · intro τ a ha
    simp only [raceRun, List.mem_append, List.mem_cons, List.mem_replicate, List.not_mem_nil,
      or_false] at ha
    rcases ha with ((((ha | ⟨-, rfl⟩) | ⟨-, rfl⟩) | rfl) | ⟨-, rfl⟩) | rfl
    · rcases ha with rfl | rfl | rfl | rfl | rfl | rfl <;> trivial
    all_goals trivial

end Sys

end TaskScheduler
