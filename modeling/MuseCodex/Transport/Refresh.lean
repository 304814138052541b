import MuseCodex.Transport.Retry
import Mathlib.Logic.Function.Basic
import Mathlib.Logic.Relation

/-!
# Credentials that several tasks refresh

The loop of `Retry.lean` as it runs beside others. Gateways of one home share the stored
credentials, and the tasks of one gateway share what is cached of them. A task can be overtaken by
others wherever it awaits something: the response, the lock, and a step of the recovery. `advance`
is what a task does from one such point to the next, and a turn of the loop that is not overtaken is
at most three of them (`prestreamTurn_advance`).

Over these steps, in any order of any number of tasks, the lock of `acquire_credential_refresh_lock`
is held by one task at a time, and a task takes a step of the recovery only while it holds it. The
lock is released when the task returns.

Credentials that are about to expire are also refreshed when they are asked for, which is before
every send, and that does not take the lock (`Site.renew`). As long as no send does so, what a task
shows to the authority to be refreshed is what is stored: no task shows credentials that another one
has replaced (`reached_sound`). A send that does so can make another gateway show credentials that
are replaced already, though that gateway holds the lock (`reached_unsound`). Each refresh is one
step here. A login is no step.
-/

namespace MuseCodex.Transport

open Looping

/-! ## The points of the loop -/

/-- Where a task stands: it is about to send, it waits for the lock, it is about to take a step of
the recovery, or it has returned. -/
inductive Phase (R T η ε : Type) where
  | sending
  | locking (r : R)
  | recovering (r : R)
  | returned (result : Except (SendError η ε) T)

/-- A task that has come to some point of the loop. -/
structure Task (R L T η ε : Type) where
  phase : Phase R T η ε
  transientAttempts : ℕ
  refreshLock : Option L
  recovery : Option R

variable {W R H L T η ε : Type}

/-- The variables of the loop in a world. -/
def Task.attempt (k : Task R L T η ε) (w : W) : Attempt W R L :=
  ⟨k.transientAttempts, k.refreshLock, k.recovery, w⟩

/-- A task with the variables of the loop. -/
def Task.of (phase : Phase R T η ε) (s : Attempt W R L) : Task R L T η ε :=
  ⟨phase, s.transientAttempts, s.refreshLock, s.recovery⟩

/-- A task at its start. -/
def Task.start (recovery : Option R) : Task R L T η ε := ⟨.sending, 0, none, recovery⟩

section Loop

variable (env : Prestream W R H L T η ε) (refreshLockHome : Option H)

/-- What a task does with a response. -/
def receive (k : Task R L T η ε) (response : T) (w : W) :
    List (Act L T η ε) × Task R L T η ε × W :=
  let sent : Act L T η ε := .sent (.ok response)
  if isServerError (env.responseStatus response) && k.transientAttempts + 1 < maxPrestreamAttempts then
    let (acts, w) := waitToRetry env response w
    (sent :: acts, { k with transientAttempts := k.transientAttempts + 1 }, w)
  else if env.responseStatus response ≠ unauthorized then
    ([sent], { k with phase := .returned (.ok response) }, w)
  else
    match k.recovery with
    | none => ([sent], { k with phase := .returned (.ok response) }, w)
    | some r =>
      if !env.hasNext r w then ([sent], { k with phase := .returned (.ok response) }, w)
      else if k.refreshLock.isNone && refreshLockHome.isSome then
        ([sent], { k with phase := .locking r }, w)
      else ([sent], { k with phase := .recovering r }, w)

/-- What a task does up to the next point where it can be overtaken. -/
def advance (k : Task R L T η ε) (w : W) : List (Act L T η ε) × Task R L T η ε × W :=
  match k.phase with
  | .sending =>
    match env.send w with
    | (.ok response, w) => receive env refreshLockHome k response w
    | (.error error, w) =>
      match settleError env (k.attempt w) error with
      | .again s => ([.sent (.error error)], .of .sending s, s.world)
      | .done (result, s) => ([.sent (.error error)], .of (.returned result) s, s.world)
  | .locking r =>
    match takeLock env refreshLockHome (k.attempt w) with
    | (acts, .ok (), s) => (acts, .of (.recovering r) s, s.world)
    | (acts, .error e, s) => (acts, .of (.returned (.error e)) s, s.world)
  | .recovering r =>
    match env.next r w with
    | (.ok (), r, w) => ([.recovered (.ok ())], { k with phase := .sending, recovery := some r }, w)
    | (.error e, r, w) =>
      ([.recovered (.error e)], { k with phase := .returned (.error e), recovery := some r }, w)
  | .returned _ => ([], k, w)

/-- Some steps of a task that nothing overtakes. -/
def advances : ℕ → Task R L T η ε → W → List (Act L T η ε) × Task R L T η ε × W
  | 0, k, w => ([], k, w)
  | n + 1, k, w =>
    let (acts, k, w) := advance env refreshLockHome k w
    let (acts', k, w) := advances n k w
    (acts ++ acts', k, w)

/-- The task that a turn of the loop leaves. -/
def afterTurn : List (Act L T η ε) × Next (Attempt W R L) (Except (SendError η ε) T × Attempt W R L) →
    List (Act L T η ε) × Task R L T η ε × W
  | (acts, .again s) => (acts, .of .sending s, s.world)
  | (acts, .done (result, s)) => (acts, .of (.returned result) s, s.world)

variable {env refreshLockHome}

/-- One step of a task. -/
theorem advances_one (k : Task R L T η ε) (w : W) :
    advances env refreshLockHome 1 k w = advance env refreshLockHome k w := by
  simp [advances]

/-- A step of the recovery is one step of the task if the lock is held or there is none, and the
lock and the step are two if not. -/
theorem advances_recover {s : Attempt W R L} {r : R} {k : Task R L T η ε}
    (hk : k = .of (if s.refreshLock.isNone && refreshLockHome.isSome then .locking r
      else .recovering r) s) : ∃ n, n ≤ 2 ∧
      advances env refreshLockHome n k s.world = afterTurn (recover env refreshLockHome s r) := by
  have hstep (s : Attempt W R L) : advance env refreshLockHome (.of (.recovering r) s) s.world =
      afterTurn (match env.next r s.world with
        | (.ok (), r, w) => ([.recovered (.ok ())], .again { s with recovery := some r, world := w })
        | (.error e, r, w) => ([.recovered (.error e)],
            .done (.error e, { s with recovery := some r, world := w }))) := by
    have hadvance : advance env refreshLockHome (.of (.recovering r) s) s.world =
        match env.next r s.world with
        | (.ok (), r, w) => ([.recovered (.ok ())],
          .of .sending { s with recovery := some r, world := w }, w)
        | (.error e, r, w) => ([.recovered (.error e)],
          .of (.returned (.error e)) { s with recovery := some r, world := w }, w) := rfl
    rw [hadvance]
    rcases env.next r s.world with ⟨_ | _, r', w'⟩ <;> rfl
  cases hlock : s.refreshLock.isNone && refreshLockHome.isSome with
  | false =>
    -- The lock is held, or there is none to take.
    have hnone : takeLock env refreshLockHome s = ([], .ok (), s) := by
      unfold takeLock
      split
      · simp_all
      · rfl
    refine ⟨1, by decide, ?_⟩
    rw [advances_one, hk, hlock, if_neg nofun, hstep, recover, hnone]
    dsimp only
    rcases env.next r s.world with ⟨_ | _, r', w'⟩ <;> rfl
  | true =>
    rw [hk, hlock, if_pos rfl]
    -- The lock is one step, and the step of the recovery is another one if the lock was taken.
    have hfirst : advance env refreshLockHome (.of (.locking r) s) s.world =
        match takeLock env refreshLockHome s with
        | (acts, .ok (), s) => (acts, .of (.recovering r) s, s.world)
        | (acts, .error e, s) => (acts, .of (.returned (.error e)) s, s.world) := rfl
    unfold recover
    rcases htaken : takeLock env refreshLockHome s with ⟨acts, e | ⟨⟨⟩⟩, s'⟩
    · refine ⟨1, by decide, ?_⟩
      rw [advances_one, hfirst, htaken]
      rfl
    · refine ⟨2, by decide, ?_⟩
      rw [advances, hfirst, htaken]
      dsimp only
      rw [advances_one, hstep]
      rcases env.next r s'.world with ⟨_ | _, r', w'⟩ <;> rfl

/-- A turn of the loop is at most three steps of a task that nothing overtakes. -/
theorem prestreamTurn_advance (s : Attempt W R L) : ∃ n, n ≤ 3 ∧
    advances env refreshLockHome n (.of .sending s) s.world =
      afterTurn (prestreamTurn env refreshLockHome s) := by
  have hadvance : advance env refreshLockHome (.of .sending s) s.world =
      match env.send s.world with
      | (.ok response, w) => receive env refreshLockHome (.of .sending s) response w
      | (.error error, w) =>
        match settleError env ((Task.of .sending s : Task R L T η ε).attempt w) error with
        | .again s => ([.sent (.error error)], .of .sending s, s.world)
        | .done (result, s) => ([.sent (.error error)], .of (.returned result) s, s.world) := rfl
  rcases hsend : env.send s.world with ⟨error | response, w⟩
  · refine ⟨1, by decide, ?_⟩
    rw [advances_one, hadvance, hsend, prestreamTurn, hsend]
    have hattempt : (Task.of .sending s : Task R L T η ε).attempt w = { s with world := w } := rfl
    dsimp only
    rw [hattempt]
    rcases settleError env { s with world := w } error with s' | ⟨result, s'⟩ <;> rfl
  · -- What is done with a response is one step, unless it calls for the recovery.
    have hone : advances env refreshLockHome 1 (.of .sending s) s.world =
        receive env refreshLockHome (.of .sending s) response w := by
      rw [advances_one, hadvance, hsend]
    rw [prestreamTurn, hsend]
    dsimp only
    unfold settleResponse
    split_ifs with hserver hstatus
    · refine ⟨1, by decide, ?_⟩
      rw [hone, receive, if_pos (by exact hserver)]
      rfl
    · refine ⟨1, by decide, ?_⟩
      rw [hone, receive, if_neg (by exact hserver), if_pos hstatus]
      rfl
    · obtain ⟨attempts, lock, recovery, w₀⟩ := s
      cases recovery with
      | none =>
        refine ⟨1, by decide, ?_⟩
        rw [hone, receive, if_neg (by exact hserver), if_neg hstatus]
        rfl
      | some r =>
        have hreceive : receive env refreshLockHome (.of .sending ⟨attempts, lock, some r, w₀⟩)
            response w =
            if !env.hasNext r w then ([.sent (.ok response)],
              .of (.returned (.ok response)) ⟨attempts, lock, some r, w⟩, w)
            else ([.sent (.ok response)], .of (if lock.isNone && refreshLockHome.isSome then
              .locking r else .recovering r) ⟨attempts, lock, some r, w⟩, w) := by
          unfold receive
          rw [if_neg (by exact hserver), if_neg hstatus]
          simp only [Task.of]
          cases env.hasNext r w <;> cases lock <;> cases refreshLockHome <;> rfl
        dsimp only
        split_ifs with hnext
        · refine ⟨1, by decide, ?_⟩
          rw [hone, hreceive, if_pos hnext]
          rfl
        · obtain ⟨n, hn, hrun⟩ : ∃ n, n ≤ 2 ∧ advances env refreshLockHome n
              (.of (if lock.isNone && refreshLockHome.isSome then .locking r else .recovering r)
                ⟨attempts, lock, some r, w⟩) w =
              afterTurn (recover env refreshLockHome ⟨attempts, lock, some r, w⟩ r) :=
            advances_recover (s := ⟨attempts, lock, some r, w⟩) rfl
          refine ⟨n + 1, by omega, ?_⟩
          rw [advances, hadvance, hsend]
          dsimp only
          rw [hreceive, if_neg hnext]
          dsimp only
          rw [hrun]
          rcases recover env refreshLockHome ⟨attempts, lock, some r, w⟩ r with
            ⟨acts, s' | ⟨result, s'⟩⟩ <;> rfl

end Loop

/-! ## Tasks beside each other -/

/-- What the tasks of a home share: the stored credentials, what each gateway has cached of them,
the task that holds the lock, and the credentials that were shown to the authority, each with those
that were stored at that moment. -/
structure Shared (ι π C : Type) where
  stored : Option C
  cached : π → Option C
  holder : Option ι
  shown : List (C × Option C)

/-- `set_cached_auth` of a gateway. -/
def Shared.cache {ι π C : Type} [DecidableEq π] (w : Shared ι π C) (gateway : π)
    (credentials : Option C) : Shared ι π C :=
  { w with cached := Function.update w.cached gateway credentials }

/-- What a step of a task meets: the outcome of a send, whether the credentials are about to expire
then, the error of the lock, whether the stored credentials can be read, whether the authority has
refused the cached credentials for good, and how it changes credentials that it refreshes. -/
structure Choice (C T η : Type) where
  outcome : Except (SendError η String) T
  due : Bool
  lockError : Option (SendError η String)
  loads : Bool
  refused : Bool
  reply : Option (C → C)

/-- The gateways of the tasks, and what the loop and the manager look at. -/
structure Site (ι π C T η : Type) where
  gateway : ι → π
  accountId : C → Option String
  /-- Credentials of a kind that can be recovered. -/
  recovers : C → Bool
  /-- Credentials that the authority refreshes. -/
  refreshes : C → Bool
  isTimeout : η → Bool
  isConnect : η → Bool
  isRequest : η → Bool
  isBody : η → Bool
  responseStatus : T → ℕ
  retryAfter : T → Option ℕ

section Tasks

variable {ι π C T η : Type} [DecidableEq π] [DecidableEq C]

namespace Site

variable (site : Site ι π C T η) (i : ι) (c : Choice C T η)

/-- The manager of a task's gateway. -/
def manager : AuthManager (Shared ι π C) where
  hasExternalAuth _ := false
  hasRefreshableExternalAuth _ := false
  supportsUnauthorizedRecovery w := (w.cached (site.gateway i)).any site.recovers
  reloadIfAccountIdMatches expected w :=
    match expected with
    | none => (.skipped, w)
    | some accountId =>
      let loaded := if c.loads then w.stored else none
      if loaded.bind site.accountId = some accountId then
        (if loaded = w.cached (site.gateway i) then .reloadedNoChange else .reloadedChanged,
          w.cache (site.gateway i) loaded)
      else (.skipped, w)
  refreshTokenFromAuthority w :=
    match w.cached (site.gateway i) with
    | none => (true, w)
    | some credentials =>
      if c.refused then (false, w)
      else if !site.refreshes credentials then (true, w)
      else
        let w := { w with shown := w.shown ++ [(credentials, w.stored)] }
        match c.reply, w.stored with
        | some update, some stored =>
          let refreshed := update stored
          let w := { w with stored := some refreshed }
          (true, w.cache (site.gateway i) (if c.loads then some refreshed else none))
        | _, _ => (false, w)

/-- `AuthManager::auth`: credentials that are about to expire are refreshed, unless the stored ones
are others by now. -/
def renew (w : Shared ι π C) : Shared ι π C :=
  let cached := w.cached (site.gateway i)
  if c.due && cached.any site.refreshes then
    match (site.manager i c).reloadIfAccountIdMatches (cached.bind site.accountId) w with
    | (.reloadedNoChange, w) => ((site.manager i c).refreshTokenFromAuthority w).2
    | (.reloadedChanged, w) | (.skipped, w) => w
  else w

/-- What a task runs the loop with in a step. -/
def env (H : Type) : Prestream (Shared ι π C) UnauthorizedRecovery H Unit T η String where
  toRecovery := codexRecovery (site.manager i c)
  send w := (c.outcome, site.renew i c w)
  isTimeout := site.isTimeout
  isConnect := site.isConnect
  isRequest := site.isRequest
  isBody := site.isBody
  responseStatus := site.responseStatus
  retryAfter := site.retryAfter
  sleep _ w := w
  acquireCredentialRefreshLock _ w :=
    match c.lockError with
    | some e => (.error e, w)
    | none => (.ok (), { w with holder := some i })

/-- The recovery that a task starts with. -/
def unauthorizedRecovery (w : Shared ι π C) : UnauthorizedRecovery :=
  ⟨.reload, (w.cached (site.gateway i)).bind site.accountId, .managed⟩

end Site

/-- A task of the gateway. -/
abbrev GatewayTask (T η : Type) := Task UnauthorizedRecovery Unit T η String

/-- The lock is dropped with the variables of the loop. -/
def dropLock (k : GatewayTask T η) (w : Shared ι π C) : Shared ι π C :=
  if k.refreshLock.isSome then { w with holder := none } else w

/-- A task that has returned releases the lock. -/
def release (k : GatewayTask T η) (w : Shared ι π C) : GatewayTask T η × Shared ι π C :=
  match k.phase with
  | .returned _ => ({ k with refreshLock := none }, dropLock k w)
  | .sending | .locking _ | .recovering _ => (k, w)

/-- The tasks, and what they share. -/
structure System (ι π C T η : Type) where
  shared : Shared ι π C
  tasks : ι → GatewayTask T η

variable {H : Type} (site : Site ι π C T η) (home : H)

/-- A step of one task. -/
def step [DecidableEq ι] (i : ι) (c : Choice C T η) (s : System ι π C T η) : System ι π C T η :=
  let (_, k, w) := advance (site.env i c H) (some home) (s.tasks i) s.shared
  let (k, w) := release k w
  ⟨w, Function.update s.tasks i k⟩

/-- A new request of the gateway of `i`. -/
def start [DecidableEq ι] (i : ι) (s : System ι π C T η) : System ι π C T η :=
  let w := dropLock (s.tasks i) s.shared
  ⟨w, Function.update s.tasks i (Task.start (some (site.unauthorizedRecovery i w)))⟩

/-- The steps of the system. A task gets the lock only when nobody holds it. A new task may start at
any point in the place of another one, which has returned or whose client has gone away. In a calm
system no send refreshes credentials. -/
inductive Step [DecidableEq ι] (calm : Bool) : System ι π C T η → System ι π C T η → Prop where
  | advance {s : System ι π C T η} (i : ι) (c : Choice C T η)
      (hfree : ∀ r, (s.tasks i).phase = .locking r → c.lockError = none → s.shared.holder = none)
      (hcalm : calm = true → c.due = false) : Step calm s (step site home i c s)
  | start {s : System ι π C T η} (i : ι) : Step calm s (start site i s)

/-- Before anything has happened, nobody holds the lock, and every task is at its start. -/
structure Initial (s : System ι π C T η) : Prop where
  holder : s.shared.holder = none
  shown : s.shared.shown = []
  tasks : ∀ i, s.tasks i = Task.start (some (site.unauthorizedRecovery i s.shared))

/-! ## The invariants -/

/-- A task holds the lock where it takes a step of the recovery, and not where it waits for it or
has returned. -/
def Locked (k : GatewayTask T η) : Prop :=
  match k.phase with
  | .sending => True
  | .locking _ | .returned _ => k.refreshLock = none
  | .recovering _ => k.refreshLock.isSome = true

/-- The lock is held by the task that has it. -/
structure LockInv (s : System ι π C T η) : Prop where
  holds : ∀ i, (s.tasks i).refreshLock.isSome = true ↔ s.shared.holder = some i
  locked : ∀ i, Locked (s.tasks i)

/-- What a step of the task `i` does to the task and to the lock. -/
structure LockMoves (i : ι) (k' : GatewayTask T η) (w w' : Shared ι π C) : Prop where
  locked : Locked k'
  holds : k'.refreshLock.isSome = true ↔ w'.holder = some i
  others : ∀ j, j ≠ i → (w'.holder = some j ↔ w.holder = some j)

/-- A recovery whose next step can be taken under the lock: credentials that are to be refreshed are
cached as they are stored. -/
def Ready (w : Shared ι π C) (i : ι) (r : UnauthorizedRecovery) : Prop :=
  r.step = .reload ∨ (r.step = .refreshToken ∧ w.cached (site.gateway i) = w.stored) ∨ r.step = .done

/-- What holds of the credentials of a task at each point. -/
def Sound (w : Shared ι π C) (i : ι) (k : GatewayTask T η) : Prop :=
  match k.phase with
  | .sending => ∃ r, k.recovery = some r ∧
      (if k.refreshLock.isSome then Ready site w i r else r.step = .reload)
  | .locking r => r.step = .reload
  | .recovering r => Ready site w i r
  | .returned _ => True

/-- All that was shown to the authority was stored at that moment. -/
def ShownStored (w : Shared ι π C) : Prop := ∀ e ∈ w.shown, e.2 = some e.1

/-- The invariant of a calm system. -/
structure Inv (s : System ι π C T η) : Prop where
  lock : LockInv s
  sound : ∀ i, Sound site s.shared i (s.tasks i)
  shown : ShownStored s.shared

/-- What a step of the task `i` does to the task and to the credentials. -/
structure Moves (i : ι) (k k' : GatewayTask T η) (w w' : Shared ι π C) : Prop where
  sound : Sound site w' i k'
  shown : ShownStored w → ShownStored w'
  /-- Only under the lock are credentials changed. -/
  frame : k.refreshLock.isSome = true ∨ w'.stored = w.stored ∧ w'.cached = w.cached

section Step

variable {site} {i : ι} {c : Choice C T η} {k : GatewayTask T η} {w : Shared ι π C}

/-- A reload caches what is stored, or nothing happens. -/
theorem Site.reload_cases (expected : Option String) :
    (site.manager i c).reloadIfAccountIdMatches expected w = (.skipped, w) ∨
      ∃ outcome, (outcome = .reloadedChanged ∨ outcome = .reloadedNoChange) ∧
        (site.manager i c).reloadIfAccountIdMatches expected w =
          (outcome, w.cache (site.gateway i) w.stored) := by
  cases expected with
  | none => exact .inl rfl
  | some accountId =>
    by_cases hmatch : (if c.loads then w.stored else none).bind site.accountId = some accountId
    · -- What could not be loaded has no account.
      have hloaded : (if c.loads then w.stored else none) = w.stored := by
        cases hloads : c.loads
        · simp [hloads] at hmatch
        · rfl
      refine .inr ⟨_, ?_, by simp only [manager]; rw [if_pos hmatch, hloaded]⟩
      split_ifs
      · exact .inr rfl
      · exact .inl rfl
    · exact .inl (by simp only [manager]; rw [if_neg hmatch])

/-- Credentials that are cached as they are stored are shown as they are stored. -/
theorem Site.refresh_shown (hcached : w.cached (site.gateway i) = w.stored) (hshown : ShownStored w) :
    ShownStored ((site.manager i c).refreshTokenFromAuthority w).2 := by
  simp only [manager]
  split
  · exact hshown
  · rename_i credentials hcredentials
    -- What is cached is what is stored, so that is what is shown.
    have hnew : ShownStored { w with shown := w.shown ++ [(credentials, w.stored)] } := by
      intro e he
      rcases List.mem_append.1 he with he | he
      · exact hshown e he
      · rw [List.mem_singleton.1 he, ← hcached, hcredentials]
    cases c.refused
    · cases site.refreshes credentials
      · exact hshown
      · rcases c.reply with _ | update
        · exact hnew
        · rcases hstored : w.stored with _ | stored
          · simp only [hstored] at hnew ⊢
            exact hnew
          · simp only [hstored] at hnew ⊢
            exact hnew
    · exact hshown

/-- A refresh leaves the lock where it is. -/
theorem Site.refresh_holder :
    ((site.manager i c).refreshTokenFromAuthority w).2.holder = w.holder := by
  simp only [manager]
  split
  · rfl
  · rename_i credentials _
    cases c.refused
    · cases site.refreshes credentials
      · rfl
      · rcases c.reply with _ | update
        · rfl
        · rcases hstored : w.stored with _ | stored <;> rfl
    · rfl

/-- A step of the recovery does not take the lock. -/
theorem next_holder (r : UnauthorizedRecovery) :
    ((site.env i c H).next r w).2.2.holder = w.holder := by
  have hnext : (site.env i c H).next r w = (codexRecovery (site.manager i c)).next r w := rfl
  rw [hnext]
  simp only [codexRecovery, UnauthorizedRecovery.next]
  by_cases hmore : (!r.hasNext (site.manager i c) w) = true
  · rw [if_pos hmore]
  rw [if_neg hmore]
  have hrefresh := site.refresh_holder (i := i) (c := c) (w := w)
  cases r.step with
  | reload =>
    dsimp only
    obtain hskip | ⟨outcome, houtcome, hreload⟩ :=
      site.reload_cases (i := i) (c := c) (w := w) r.expectedAccountId
    · rw [hskip]
    · rw [hreload]
      obtain rfl | rfl := houtcome
      · rfl
      · rfl
  | refreshToken | externalRefresh =>
    dsimp only
    revert hrefresh
    rcases (site.manager i c).refreshTokenFromAuthority w with ⟨_ | _, w'⟩
    · exact id
    · exact id
  | done => rfl

/-- A step of the recovery under the lock shows what is stored, and leaves a recovery that can go
on. -/
theorem next_sound {r : UnauthorizedRecovery} (hready : Ready site w i r) :
    (ShownStored w → ShownStored ((site.env i c H).next r w).2.2) ∧
      (((site.env i c H).next r w).1 = .ok () →
        Ready site ((site.env i c H).next r w).2.2 i ((site.env i c H).next r w).2.1) := by
  have hnext : (site.env i c H).next r w = (codexRecovery (site.manager i c)).next r w := rfl
  rw [hnext]
  simp only [codexRecovery, UnauthorizedRecovery.next]
  by_cases hmore : (!r.hasNext (site.manager i c) w) = true
  · rw [if_pos hmore]
    exact ⟨id, fun h => by cases h⟩
  rw [if_neg hmore]
  obtain hstep | ⟨hstep, hcached⟩ | hstep := hready
  · rw [hstep]
    dsimp only
    obtain hskip | ⟨outcome, houtcome, hreload⟩ :=
      site.reload_cases (i := i) (c := c) (w := w) r.expectedAccountId
    · rw [hskip]
      exact ⟨id, fun h => by cases h⟩
    · -- A reload caches what is stored.
      have hfresh : (w.cache (site.gateway i) w.stored).cached (site.gateway i) = w.stored :=
        Function.update_self ..
      rw [hreload]
      obtain rfl | rfl := houtcome
      · exact ⟨id, fun _ => .inr (.inl ⟨rfl, hfresh⟩)⟩
      · exact ⟨id, fun _ => .inr (.inl ⟨rfl, hfresh⟩)⟩
  · -- Under the lock, what is cached is still what is stored.
    have hshown := site.refresh_shown (i := i) (c := c) hcached
    rw [hstep]
    dsimp only
    revert hshown
    rcases (site.manager i c).refreshTokenFromAuthority w with ⟨_ | _, w'⟩
    · exact fun hshown => ⟨hshown, fun h => by cases h⟩
    · exact fun hshown => ⟨hshown, fun _ => .inr (.inr rfl)⟩
  · rw [hstep]
    exact ⟨id, fun _ => .inr (.inr hstep)⟩

omit [DecidableEq π] [DecidableEq C] in
/-- Dropping the lock leaves the credentials. -/
theorem dropLock_frame (k : GatewayTask T η) (w : Shared ι π C) :
    (dropLock k w).stored = w.stored ∧ (dropLock k w).cached = w.cached ∧
      (dropLock k w).shown = w.shown := by
  unfold dropLock
  split_ifs <;> exact ⟨rfl, rfl, rfl⟩

omit [DecidableEq π] [DecidableEq C] in
/-- A task that drops its lock does not hold it. -/
theorem dropLock_holder (hholds : k.refreshLock.isSome = true ↔ w.holder = some i) :
    (dropLock k w).holder ≠ some i := by
  unfold dropLock
  split_ifs with hlock
  · exact nofun
  · exact fun h => hlock (hholds.2 h)

omit [DecidableEq π] [DecidableEq C] in
/-- Dropping the lock takes it from no other task. -/
theorem dropLock_others (hholds : k.refreshLock.isSome = true ↔ w.holder = some i) {j : ι}
    (hj : j ≠ i) : (dropLock k w).holder = some j ↔ w.holder = some j := by
  unfold dropLock
  split_ifs with hlock
  · rw [hholds.1 hlock]
    simp [hj.symm]
  · exact Iff.rfl

/-- Refreshing credentials before a send does not take the lock. -/
theorem Site.renew_holder : (site.renew i c w).holder = w.holder := by
  unfold renew
  dsimp only
  split_ifs
  · rcases site.reload_cases (i := i) (c := c) (w := w)
      ((w.cached (site.gateway i)).bind site.accountId) with hskip | ⟨outcome, houtcome, hreload⟩
    · rw [hskip]
    · rw [hreload]
      rcases houtcome with rfl | rfl
      · rfl
      · exact site.refresh_holder
  · rfl

/-- In a calm system, a send leaves the credentials alone. -/
theorem Site.renew_calm (hcalm : c.due = false) : site.renew i c w = w := by
  unfold renew
  dsimp only
  rw [hcalm, Bool.false_and, if_neg Bool.false_ne_true]

omit [DecidableEq π] [DecidableEq C] in
/-- A task that has returned drops its lock, and any other task goes on as it is. -/
theorem release_cases (k : GatewayTask T η) (w : Shared ι π C) :
    (∃ result, k.phase = .returned result) ∧
      release k w = ({ k with refreshLock := none }, dropLock k w) ∨
    (¬∃ result, k.phase = .returned result) ∧ release k w = (k, w) := by
  unfold release
  cases hphase : k.phase with
  | returned result => exact .inl ⟨⟨result, rfl⟩, rfl⟩
  | _ => exact .inr ⟨by simp, rfl⟩

omit [DecidableEq π] [DecidableEq C] in
/-- What a task returns with is not looked at: the lock is released. -/
theorem lockMoves_release {k' : GatewayTask T η} {w' : Shared ι π C}
    (hlocked : (∃ result, k'.phase = .returned result) ∨ Locked k')
    (hholds : k'.refreshLock.isSome = true ↔ w'.holder = some i)
    (hothers : ∀ j, j ≠ i → (w'.holder = some j ↔ w.holder = some j)) :
    LockMoves i (release k' w').1 w (release k' w').2 := by
  obtain ⟨⟨result, hphase⟩, hrelease⟩ | ⟨hgoes, hrelease⟩ := release_cases k' w'
  · rw [hrelease]
    refine ⟨?_, ⟨fun h => (by cases h), fun h => absurd h (dropLock_holder hholds)⟩,
      fun j hj => (dropLock_others hholds hj).trans (hothers j hj)⟩
    unfold Locked
    rw [hphase]
  · rw [hrelease]
    exact ⟨hlocked.resolve_left hgoes, hholds, hothers⟩

omit [DecidableEq π] [DecidableEq C] in
/-- What a task returns with is not looked at: its credentials do not matter any more. -/
theorem moves_release {k' : GatewayTask T η} {w' : Shared ι π C}
    (hsound : (∃ result, k'.phase = .returned result) ∨ Sound site w' i k')
    (hshown : ShownStored w → ShownStored w')
    (hframe : k.refreshLock.isSome = true ∨ w'.stored = w.stored ∧ w'.cached = w.cached) :
    Moves site i k (release k' w').1 w (release k' w').2 := by
  obtain ⟨⟨result, hphase⟩, hrelease⟩ | ⟨hgoes, hrelease⟩ := release_cases k' w'
  · obtain ⟨hdropStored, hdropCached, hdropShown⟩ := dropLock_frame k' w'
    rw [hrelease]
    refine ⟨?_, fun h => ?_, ?_⟩
    · unfold Sound
      rw [hphase]
      trivial
    · unfold ShownStored
      rw [hdropShown]
      exact hshown h
    · rw [hdropStored, hdropCached]
      exact hframe
  · rw [hrelease]
    exact ⟨hsound.resolve_left hgoes, hshown, hframe⟩

variable (site i c) in
/-- A task without the lock gets it, unless the lock fails. -/
theorem takeLock_cases (home : H) (s : Attempt (Shared ι π C) UnauthorizedRecovery Unit)
    (hfree : s.refreshLock = none) :
    (∃ e, c.lockError = some e ∧
      takeLock (site.env i c H) (some home) s = ([.locked (.error e)], .error e, s)) ∨
    c.lockError = none ∧ takeLock (site.env i c H) (some home) s = ([.locked (.ok ())], .ok (),
      { s with refreshLock := some (), world := { s.world with holder := some i } }) := by
  obtain ⟨attempts, lock, recovery, w⟩ := s
  obtain rfl : lock = none := hfree
  cases hlockError : c.lockError with
  | none => exact .inr ⟨rfl, by simp only [takeLock, Site.env, hlockError]⟩
  | some e => exact .inl ⟨e, rfl, by simp only [takeLock, Site.env, hlockError]⟩

/-- A response changes nothing that is shared, and sends a task without the lock to wait for it. -/
theorem receive_lock (home : H) (hphase : k.phase = .sending) (response : T) :
    (receive (site.env i c H) (some home) k response w).2.2 = w ∧
      (receive (site.env i c H) (some home) k response w).2.1.refreshLock = k.refreshLock ∧
      ((∃ result, (receive (site.env i c H) (some home) k response w).2.1.phase =
          .returned result) ∨
        Locked (receive (site.env i c H) (some home) k response w).2.1) := by
  obtain ⟨phase, attempts, lock, recovery⟩ := k
  obtain rfl : phase = .sending := hphase
  have hwait : (waitToRetry (site.env i c H) response w).2 = w := by
    unfold waitToRetry
    split
    · split_ifs <;> rfl
    · rfl
  unfold receive
  cases recovery with
  | none =>
    dsimp only
    split_ifs
    · exact ⟨hwait, rfl, .inr trivial⟩
    · exact ⟨rfl, rfl, .inl ⟨_, rfl⟩⟩
    · exact ⟨rfl, rfl, .inl ⟨_, rfl⟩⟩
  | some r =>
    dsimp only
    split_ifs with _ _ _ hlock
    · exact ⟨hwait, rfl, .inr trivial⟩
    · exact ⟨rfl, rfl, .inl ⟨_, rfl⟩⟩
    · exact ⟨rfl, rfl, .inl ⟨_, rfl⟩⟩
    · refine ⟨rfl, rfl, .inr ?_⟩
      show lock = none
      simpa using hlock
    · refine ⟨rfl, rfl, .inr ?_⟩
      -- A task that goes on without waiting has the lock, since there is one.
      show lock.isSome = true
      cases lock <;> simp_all

/-- A response leaves the credentials of a task as sound as they were. -/
theorem receive_sound (home : H) (hphase : k.phase = .sending) (hsound : Sound site w i k)
    (response : T) :
    (∃ result, (receive (site.env i c H) (some home) k response w).2.1.phase =
        .returned result) ∨
      Sound site w i (receive (site.env i c H) (some home) k response w).2.1 := by
  obtain ⟨phase, attempts, lock, recovery⟩ := k
  obtain rfl : phase = .sending := hphase
  obtain ⟨r, hr, hready⟩ := hsound
  obtain rfl : recovery = some r := hr
  unfold receive
  dsimp only
  split_ifs with _ _ _ hlock
  · exact .inr ⟨r, rfl, hready⟩
  · exact .inl ⟨_, rfl⟩
  · exact .inl ⟨_, rfl⟩
  · -- A task without the lock waits for it, and the first step it takes then is the reload.
    obtain rfl : lock = none := by simpa using hlock
    exact .inr hready
  · have hheld : lock.isSome = true := by
      cases lock <;> simp_all
    rw [if_pos hheld] at hready
    exact .inr hready

/-- What a step of a task does to the lock, whether the system is calm or not. -/
theorem advance_lockMoves (home : H)
    (hholds : k.refreshLock.isSome = true ↔ w.holder = some i) (hlocked : Locked k)
    (hfree : ∀ r, k.phase = .locking r → c.lockError = none → w.holder = none) :
    LockMoves i (release (advance (site.env i c H) (some home) k w).2.1
      (advance (site.env i c H) (some home) k w).2.2).1 w
      (release (advance (site.env i c H) (some home) k w).2.1
        (advance (site.env i c H) (some home) k w).2.2).2 := by
  obtain ⟨phase, attempts, lock, recovery⟩ := k
  cases phase with
  | sending =>
    -- Credentials may be refreshed before the send, but not under the lock.
    have hsame : (site.renew i c w).holder = w.holder := site.renew_holder
    have hholds' : lock.isSome = true ↔ (site.renew i c w).holder = some i := by
      rw [hsame]
      exact hholds
    have hothers (j : ι) (_ : j ≠ i) :
        (site.renew i c w).holder = some j ↔ w.holder = some j := by
      rw [hsame]
    unfold advance
    rcases houtcome : (site.env i c H).send w with ⟨error | response, w'⟩
    · obtain rfl : site.renew i c w = w' := congrArg Prod.snd houtcome
      rcases error with e | e
      · dsimp only [settleError]
        split_ifs
        · exact lockMoves_release (.inr trivial) hholds' hothers
        · exact lockMoves_release (.inl ⟨_, rfl⟩) hholds' hothers
      · exact lockMoves_release (.inl ⟨_, rfl⟩) hholds' hothers
    · obtain rfl : site.renew i c w = w' := congrArg Prod.snd houtcome
      dsimp only
      obtain ⟨hworld, hlock, hnext⟩ := receive_lock (c := c)
        (k := (⟨.sending, attempts, lock, recovery⟩ : GatewayTask T η)) (w := site.renew i c w)
        home rfl response
      rw [hworld]
      exact lockMoves_release hnext (by rw [hlock]; exact hholds') hothers
  | locking r =>
    unfold advance
    dsimp only
    obtain ⟨e, -, hfailed⟩ | ⟨hlockError, htaken⟩ := takeLock_cases site i c home
      ((⟨.locking r, attempts, lock, recovery⟩ : GatewayTask T η).attempt w) hlocked
    · rw [hfailed]
      exact lockMoves_release (.inl ⟨_, rfl⟩) hholds fun _ _ => Iff.rfl
    · -- Nobody held the lock, and the task has it now.
      have hnone : w.holder = none := hfree r rfl hlockError
      rw [htaken]
      refine lockMoves_release (.inr rfl) ⟨fun _ => rfl, fun _ => rfl⟩ fun j hj => ?_
      rw [hnone]
      simp [hj.symm]
  | recovering r =>
    have hholder : ((site.env i c H).next r w).2.2.holder = w.holder := next_holder r
    unfold advance
    dsimp only
    revert hholder
    rcases (site.env i c H).next r w with ⟨e | ⟨⟨⟩⟩, r', w'⟩
    · intro hholder
      exact lockMoves_release (.inl ⟨_, rfl⟩) (by rw [hholder]; exact hholds)
        fun _ _ => by rw [hholder]
    · intro hholder
      exact lockMoves_release (.inr trivial) (by rw [hholder]; exact hholds)
        fun _ _ => by rw [hholder]
  | returned result =>
    exact lockMoves_release (.inr hlocked) hholds fun _ _ => Iff.rfl

/-- What a step of a task does to the credentials in a calm system. -/
theorem advance_moves (home : H) (hcalm : c.due = false) (hlocked : Locked k)
    (hsound : Sound site w i k) :
    Moves site i k (release (advance (site.env i c H) (some home) k w).2.1
      (advance (site.env i c H) (some home) k w).2.2).1 w
      (release (advance (site.env i c H) (some home) k w).2.1
        (advance (site.env i c H) (some home) k w).2.2).2 := by
  obtain ⟨phase, attempts, lock, recovery⟩ := k
  cases phase with
  | sending =>
    unfold advance
    -- In a calm system the send leaves what is shared alone.
    have hsend : (site.env i c H).send w = (c.outcome, w) := by
      show (c.outcome, site.renew i c w) = _
      rw [site.renew_calm hcalm]
    rw [hsend]
    rcases c.outcome with error | response
    · rcases error with e | e
      · dsimp only [settleError]
        split_ifs
        · exact moves_release (.inr hsound) id (.inr ⟨rfl, rfl⟩)
        · exact moves_release (.inl ⟨_, rfl⟩) id (.inr ⟨rfl, rfl⟩)
      · exact moves_release (.inl ⟨_, rfl⟩) id (.inr ⟨rfl, rfl⟩)
    · dsimp only
      obtain ⟨hworld, -, -⟩ := receive_lock (c := c)
        (k := (⟨.sending, attempts, lock, recovery⟩ : GatewayTask T η)) (w := w) home rfl response
      rw [hworld]
      exact moves_release (receive_sound home rfl hsound response) id (.inr ⟨rfl, rfl⟩)
  | locking r =>
    unfold advance
    dsimp only
    obtain ⟨e, -, hfailed⟩ | ⟨-, htaken⟩ := takeLock_cases site i c home
      ((⟨.locking r, attempts, lock, recovery⟩ : GatewayTask T η).attempt w) hlocked
    · rw [hfailed]
      exact moves_release (.inl ⟨_, rfl⟩) id (.inr ⟨rfl, rfl⟩)
    · rw [htaken]
      exact moves_release (.inr (.inl hsound)) id (.inr ⟨rfl, rfl⟩)
  | recovering r =>
    -- Credentials change here, under the lock.
    have hheld : lock.isSome = true := hlocked
    obtain ⟨hshown, hok⟩ := next_sound (c := c) (H := H) hsound
    unfold advance
    dsimp only
    revert hshown hok
    rcases (site.env i c H).next r w with ⟨e | ⟨⟨⟩⟩, r', w'⟩
    · intro hshown _
      exact moves_release (.inl ⟨_, rfl⟩) hshown (.inl hheld)
    · intro hshown hok
      exact moves_release (.inr ⟨r', rfl, by rw [if_pos hheld]; exact hok rfl⟩) hshown (.inl hheld)
  | returned result =>
    exact moves_release (.inr hsound) id (.inr ⟨rfl, rfl⟩)

end Step

section Run

variable [DecidableEq ι] {site} {home} {calm : Bool}

omit [DecidableEq π] [DecidableEq C] [DecidableEq ι] in
/-- A task is as sound as before where the credentials of its gateway and the stored ones are. -/
theorem Sound.congr {w w' : Shared ι π C} {i : ι} {k : GatewayTask T η} (h : Sound site w i k)
    (hcredentials : w'.stored = w.stored ∧ w'.cached = w.cached) : Sound site w' i k := by
  unfold Sound Ready at h ⊢
  rw [hcredentials.1, hcredentials.2]
  exact h

omit [DecidableEq π] [DecidableEq C] [DecidableEq ι] in
/-- Nobody has the lock at first. -/
theorem lockInv_initial {s : System ι π C T η} (h : Initial site s) : LockInv s := by
  refine ⟨fun i => ?_, fun i => ?_⟩
  · rw [h.tasks i, h.holder]
    exact ⟨fun hlock => (by cases hlock), fun hholder => by cases hholder⟩
  · rw [h.tasks i]
    trivial

omit [DecidableEq π] [DecidableEq C] in
/-- A task that moves keeps the lock with the task that has it. -/
theorem LockInv.moves {s : System ι π C T η} (h : LockInv s) {i : ι} {k' : GatewayTask T η}
    {w' : Shared ι π C} (hmoves : LockMoves i k' s.shared w') :
    LockInv ⟨w', Function.update s.tasks i k'⟩ := by
  refine ⟨fun j => ?_, fun j => ?_⟩
  · by_cases hj : j = i
    · subst hj
      simp only [Function.update_self]
      exact hmoves.holds
    · simp only [Function.update_of_ne hj]
      exact (h.holds j).trans (hmoves.others j hj).symm
  · by_cases hj : j = i
    · subst hj
      simp only [Function.update_self]
      exact hmoves.locked
    · simp only [Function.update_of_ne hj]
      exact h.locked j

omit [DecidableEq π] [DecidableEq C] in
/-- A task that starts does not have the lock. -/
theorem LockInv.start {s : System ι π C T η} (h : LockInv s) (i : ι) :
    LockInv (start site i s) :=
  h.moves ⟨trivial, ⟨fun hlock => (by cases hlock),
    fun hholder => absurd hholder (dropLock_holder (h.holds i))⟩,
    fun _ hj => dropLock_others (h.holds i) hj⟩

/-- A run of any steps keeps the lock with the task that has it. -/
theorem lockInv_run {s s' : System ι π C T η}
    (hrun : Relation.ReflTransGen (Step site home calm) s s') (h : LockInv s) : LockInv s' := by
  induction hrun with
  | refl => exact h
  | tail _ hstep ih =>
    cases hstep with
    | advance i c hfree _ =>
      exact ih.moves (advance_lockMoves home (ih.holds i) (ih.locked i) hfree)
    | start i => exact ih.start i

omit [DecidableEq π] [DecidableEq C] [DecidableEq ι] in
/-- The invariant holds at first. -/
theorem inv_initial {s : System ι π C T η} (h : Initial site s) : Inv site s := by
  refine ⟨lockInv_initial h, fun i => ?_, ?_⟩
  · rw [h.tasks i]
    exact ⟨_, rfl, rfl⟩
  · intro e he
    rw [h.shown] at he
    exact absurd he List.not_mem_nil

omit [DecidableEq π] [DecidableEq C] in
/-- A task that moves keeps the invariant: the others do not hold the lock that it changes
credentials under. -/
theorem Inv.moves {s : System ι π C T η} {i : ι} {k' : GatewayTask T η} {w' : Shared ι π C}
    (h : Inv site s) (hlock : LockMoves i k' s.shared w')
    (hmoves : Moves site i (s.tasks i) k' s.shared w') :
    Inv site ⟨w', Function.update s.tasks i k'⟩ := by
  refine ⟨h.lock.moves hlock, fun j => ?_, hmoves.shown h.shown⟩
  by_cases hj : j = i
  · subst hj
    simp only [Function.update_self]
    exact hmoves.sound
  · simp only [Function.update_of_ne hj]
    obtain hheld | hsame := hmoves.frame
    · have hsound := h.sound j
      have hlocked := h.lock.locked j
      -- The lock has one holder.
      have hfree : (s.tasks j).refreshLock.isSome ≠ true := by
        intro hheld'
        have hi := (h.lock.holds i).1 hheld
        rw [(h.lock.holds j).1 hheld'] at hi
        exact hj (Option.some.inj hi)
      -- Without the lock, no task relies on the credentials.
      unfold Sound at hsound ⊢
      unfold Locked at hlocked
      rcases hphase : (s.tasks j).phase with _ | r | r | result
      · simp only [hphase, if_neg hfree] at hsound ⊢
        exact hsound
      · simp only [hphase] at hsound ⊢
        exact hsound
      · simp only [hphase] at hlocked
        exact absurd hlocked hfree
      · trivial
    · exact (h.sound j).congr hsame

/-- Every step of a calm system keeps the invariant. -/
theorem Inv.step {s s' : System ι π C T η} (h : Inv site s) (hstep : Step site home true s s') :
    Inv site s' := by
  cases hstep with
  | advance i c hfree hcalm =>
    exact h.moves (advance_lockMoves home (h.lock.holds i) (h.lock.locked i) hfree)
      (advance_moves home (hcalm rfl) (h.lock.locked i) (h.sound i))
  | start i =>
    obtain ⟨hstored, hcached, hshown⟩ := dropLock_frame (s.tasks i) s.shared
    refine h.moves ⟨trivial, ⟨fun hlock => (by cases hlock),
      fun hholder => absurd hholder (dropLock_holder (h.lock.holds i))⟩,
      fun _ hj => dropLock_others (h.lock.holds i) hj⟩
      ⟨⟨_, rfl, rfl⟩, fun hold => ?_, .inr ⟨hstored, hcached⟩⟩
    unfold ShownStored
    rw [hshown]
    exact hold

/-- A run of a calm system keeps the invariant. -/
theorem inv_run {s s' : System ι π C T η}
    (hrun : Relation.ReflTransGen (Step site home true) s s') (h : Inv site s) : Inv site s' := by
  induction hrun with
  | refl => exact h
  | tail _ hstep ih => exact ih.step hstep

/-- In every run, in whatever order the tasks move, one task at a time holds the lock, and a step of
the recovery is taken under it. In a run in which no send refreshes credentials, no task shows
credentials to the authority other than those that are stored at that moment. -/
theorem reached_sound {s₀ s : System ι π C T η} (hinitial : Initial site s₀)
    (hrun : Relation.ReflTransGen (Step site home calm) s₀ s) :
    (∀ i j, (s.tasks i).refreshLock.isSome → (s.tasks j).refreshLock.isSome → i = j) ∧
      (∀ i r, (s.tasks i).phase = .recovering r → (s.tasks i).refreshLock.isSome) ∧
      (calm = true → ∀ e ∈ s.shared.shown, e.2 = some e.1) := by
  have hlock := lockInv_run hrun (lockInv_initial hinitial)
  refine ⟨fun i j hi hj => ?_, fun i r hphase => ?_, fun hcalm => ?_⟩
  · -- Two holders are the one that the lock names.
    have hi := (hlock.holds i).1 hi
    rw [(hlock.holds j).1 hj] at hi
    exact (Option.some.inj hi).symm
  · have hlocked := hlock.locked i
    unfold Locked at hlocked
    rw [hphase] at hlocked
    exact hlocked
  · subst hcalm
    exact (inv_run hrun (inv_initial hinitial)).shown

end Run

end Tasks

/-- Two gateways with one task each, for one account. A response is its status. -/
def twoGateways : Site Bool Bool ℕ ℕ Unit where
  gateway := id
  accountId _ := some "account"
  recovers _ := true
  refreshes _ := true
  isTimeout _ := false
  isConnect _ := false
  isRequest _ := false
  isBody _ := false
  responseStatus := id
  retryAfter _ := none

/-- A step in which a send is answered with a status, and a refresh with the next credentials. -/
def answers (status : ℕ) : Choice ℕ ℕ Unit := ⟨.ok status, false, none, true, false, some (· + 1)⟩

/-- Both gateways have cached the credentials that are stored. -/
def sharedSeven : Shared Bool Bool ℕ := ⟨some 7, fun _ => some 7, none, []⟩

/-- Both gateways start. -/
def bothStart : System Bool Bool ℕ ℕ Unit :=
  ⟨sharedSeven, fun i => Task.start (some (twoGateways.unauthorizedRecovery i sharedSeven))⟩

/-- Both gateways meet a 401 with the same credentials. The one that waits for the lock shows those
that the other one has stored. -/
theorem reached_sound_overtaken : ∃ s,
    Relation.ReflTransGen (Step twoGateways () true) bothStart s ∧
      s.shared.shown = [(7, some 7), (8, some 8)] ∧
      (∀ i j, (s.tasks i).refreshLock.isSome → (s.tasks j).refreshLock.isSome → i = j) ∧
      (∀ i r, (s.tasks i).phase = .recovering r → (s.tasks i).refreshLock.isSome) ∧
      ∀ e ∈ s.shared.shown, e.2 = some e.1 := by
  have hrun := Relation.ReflTransGen.refl (r := Step twoGateways () true) (a := bothStart)
    |>.tail (.advance false (answers 401) (fun _ _ _ => rfl) fun _ => rfl)
    |>.tail (.advance true (answers 401) (fun _ _ _ => rfl) fun _ => rfl)
    |>.tail (.advance false (answers 401) (fun _ _ _ => rfl) fun _ => rfl)
    |>.tail (.advance false (answers 401) (fun _ h => by cases h) fun _ => rfl)
    |>.tail (.advance false (answers 401) (fun _ h => by cases h) fun _ => rfl)
    |>.tail (.advance false (answers 401) (fun _ h => by cases h) fun _ => rfl)
    |>.tail (.advance false (answers 200) (fun _ h => by cases h) fun _ => rfl)
    |>.tail (.advance true (answers 401) (fun _ _ _ => rfl) fun _ => rfl)
    |>.tail (.advance true (answers 401) (fun _ h => by cases h) fun _ => rfl)
    |>.tail (.advance true (answers 401) (fun _ h => by cases h) fun _ => rfl)
    |>.tail (.advance true (answers 401) (fun _ h => by cases h) fun _ => rfl)
  -- The second gateway reloads under the lock what the first one has stored.
  obtain ⟨hone, hunder, hshown⟩ := reached_sound ⟨rfl, rfl, fun _ => rfl⟩ hrun
  exact ⟨_, hrun, rfl, hone, hunder, hshown rfl⟩

/-- One gateway is about to refresh under the lock when a send of the other one, which finds its
credentials about to expire, replaces them: the first one shows what is stored no more. -/
theorem reached_unsound : ∃ s,
    Relation.ReflTransGen (Step twoGateways () false) bothStart s ∧
      s.shared.shown = [(7, some 7), (7, some 8)] := by
  have hrun := Relation.ReflTransGen.refl (r := Step twoGateways () false) (a := bothStart)
    |>.tail (.advance false (answers 401) (fun _ _ _ => rfl) fun h => by cases h)
    |>.tail (.advance false (answers 401) (fun _ _ _ => rfl) fun h => by cases h)
    |>.tail (.advance false (answers 401) (fun _ h => by cases h) fun h => by cases h)
    |>.tail (.advance false (answers 401) (fun _ h => by cases h) fun h => by cases h)
    |>.tail (.advance true { answers 200 with due := true } (fun _ h => by cases h)
      fun h => by cases h)
    |>.tail (.advance false (answers 401) (fun _ h => by cases h) fun h => by cases h)
  exact ⟨_, hrun, rfl⟩

end MuseCodex.Transport
