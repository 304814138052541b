import MuseCodex.Looping

/-!
# Sending a request until there is a response to stream

`execute_with_401_recovery` (`transport.rs`) sends a request, and sends it again before any of the
response was streamed. It does so after a failure that may pass (`isTransient`), for which it has
`MAX_PRESTREAM_ATTEMPTS` sends, and after a 401, for as long as the recovery of the credentials has
another step. The refresh of the credentials is done under a lock that other processes take too.

The request, the recovery and the lock are parameters over a world `W` that each of them may change.
A turn of the loop is one send, and its record is the list of what the loop did in it, in order.
-/

namespace MuseCodex.Transport

open Looping

/-- `Error`, as far as the loop looks into it: an error of the HTTP client, or another one. -/
inductive SendError (η ε : Type) where
  | http (error : η)
  | other (error : ε)

/-- The trait `Recovery`, for a state `R` of the recovery in a world `W`. -/
structure Recovery (W R η ε : Type) where
  hasNext : R → W → Bool
  next : R → W → Except (SendError η ε) Unit × R × W

/-- What the loop is run with. -/
structure Prestream (W R H L T η ε : Type) extends Recovery W R η ε where
  /-- The request, sent once. -/
  send : W → Except (SendError η ε) T × W
  isTimeout : η → Bool
  isConnect : η → Bool
  isRequest : η → Bool
  isBody : η → Bool
  responseStatus : T → ℕ
  retryAfter : T → Option ℕ
  sleep : ℕ → W → W
  acquireCredentialRefreshLock : H → W → Except (SendError η ε) L × W

variable {W R H L T η ε : Type}

/-- `MAX_PRESTREAM_ATTEMPTS`. -/
def maxPrestreamAttempts : ℕ := 2

/-- `StatusCode::UNAUTHORIZED`. -/
def unauthorized : ℕ := 401

/-- `StatusCode::is_server_error`. -/
def isServerError (status : ℕ) : Bool :=
  500 ≤ status && status < 600

/-- `is_retryable_send_error`. -/
def Prestream.isRetryableSendError (env : Prestream W R H L T η ε) (error : η) : Bool :=
  env.isTimeout error || env.isConnect error || env.isRequest error || env.isBody error

/-- What the loop does in a turn. -/
inductive Act (L T η ε : Type) where
  | sent (outcome : Except (SendError η ε) T)
  | slept (delay : ℕ)
  | locked (result : Except (SendError η ε) L)
  | recovered (result : Except (SendError η ε) Unit)

/-- The variables of the loop, and the world. -/
structure Attempt (W R L : Type) where
  transientAttempts : ℕ
  refreshLock : Option L
  recovery : Option R
  world : W

section Loop

variable (env : Prestream W R H L T η ε) (refreshLockHome : Option H)

/-- The lock is acquired, if it is not held and there is a home to hold it in. -/
def takeLock (s : Attempt W R L) :
    List (Act L T η ε) × Except (SendError η ε) Unit × Attempt W R L :=
  match s.refreshLock, refreshLockHome with
  | none, some home =>
    match env.acquireCredentialRefreshLock home s.world with
    | (.ok lock, w) => ([.locked (.ok lock)], .ok (), { s with refreshLock := some lock, world := w })
    | (.error e, w) => ([.locked (.error e)], .error e, { s with world := w })
  | _, _ => ([], .ok (), s)

/-- A step of the recovery, under the lock. -/
def recover (s : Attempt W R L) (r : R) :
    List (Act L T η ε) × Next (Attempt W R L) (Except (SendError η ε) T × Attempt W R L) :=
  match takeLock env refreshLockHome s with
  | (acts, .error e, s) => (acts, .done (.error e, s))
  | (acts, .ok (), s) =>
    match env.next r s.world with
    | (.ok (), r, w) =>
      (acts ++ [.recovered (.ok ())], .again { s with recovery := some r, world := w })
    | (.error e, r, w) =>
      (acts ++ [.recovered (.error e)], .done (.error e, { s with recovery := some r, world := w }))

/-- The wait that a server error asks for. -/
def waitToRetry (response : T) (w : W) : List (Act L T η ε) × W :=
  match env.retryAfter response with
  | some delay => if delay ≠ 0 then ([.slept delay], env.sleep delay w) else ([], w)
  | none => ([], w)

/-- What a turn does with a response. -/
def settleResponse (s : Attempt W R L) (response : T) :
    List (Act L T η ε) × Next (Attempt W R L) (Except (SendError η ε) T × Attempt W R L) :=
  if isServerError (env.responseStatus response)
      && s.transientAttempts + 1 < maxPrestreamAttempts then
    let (acts, w) := waitToRetry env response s.world
    (acts, .again { s with transientAttempts := s.transientAttempts + 1, world := w })
  else if env.responseStatus response ≠ unauthorized then
    ([], .done (.ok response, s))
  else
    match s.recovery with
    | none => ([], .done (.ok response, s))
    | some r =>
      if !env.hasNext r s.world then
        ([], .done (.ok response, s))
      else
        recover env refreshLockHome s r

/-- What a turn does with an error of the send. -/
def settleError (s : Attempt W R L) (error : SendError η ε) :
    Next (Attempt W R L) (Except (SendError η ε) T × Attempt W R L) :=
  match error with
  | .http e =>
    if s.transientAttempts + 1 < maxPrestreamAttempts && env.isRetryableSendError e then
      .again { s with transientAttempts := s.transientAttempts + 1 }
    else
      .done (.error error, s)
  | .other _ => .done (.error error, s)

/-- The body of the loop of `execute_with_401_recovery`. -/
def prestreamTurn (s : Attempt W R L) :
    List (Act L T η ε) × Next (Attempt W R L) (Except (SendError η ε) T × Attempt W R L) :=
  match env.send s.world with
  | (.ok response, w) =>
    let (acts, next) := settleResponse env refreshLockHome { s with world := w } response
    (.sent (.ok response) :: acts, next)
  | (.error error, w) => ([.sent (.error error)], settleError env { s with world := w } error)

/-- `execute_with_401_recovery`, for at most `fuel` turns: what each turn did, the result, and the
state in which the loop returned. -/
def executeWith401Recovery (fuel : ℕ) (recovery : Option R) (w : W) :
    Option (List (List (Act L T η ε)) × Except (SendError η ε) T × Attempt W R L) :=
  run (prestreamTurn env refreshLockHome) fuel
    { transientAttempts := 0, refreshLock := none, recovery, world := w }

end Loop

/-! ## The recovery of the stored credentials -/

/-- `UnauthorizedRecoveryStep`. -/
inductive UnauthorizedRecoveryStep where
  | reload
  | refreshToken
  | externalRefresh
  | done
  deriving DecidableEq

/-- `UnauthorizedRecoveryMode`. -/
inductive UnauthorizedRecoveryMode where
  | managed
  | external
  deriving DecidableEq

/-- `ReloadOutcome`. -/
inductive ReloadOutcome where
  | reloadedChanged
  | reloadedNoChange
  | skipped

/-- What the recovery asks of the `AuthManager`. -/
structure AuthManager (W : Type) where
  hasExternalAuth : W → Bool
  hasRefreshableExternalAuth : W → Bool
  /-- There are cached credentials, and they are of a kind that can be recovered. -/
  supportsUnauthorizedRecovery : W → Bool
  reloadIfAccountIdMatches : Option String → W → ReloadOutcome × W
  /-- Whether the refresh succeeded. -/
  refreshTokenFromAuthority : W → Bool × W

/-- `UnauthorizedRecovery`. -/
structure UnauthorizedRecovery where
  step : UnauthorizedRecoveryStep
  expectedAccountId : Option String
  mode : UnauthorizedRecoveryMode

/-- `UnauthorizedRecovery::has_next`. -/
def UnauthorizedRecovery.hasNext (manager : AuthManager W) (r : UnauthorizedRecovery) (w : W) :
    Bool :=
  if manager.hasRefreshableExternalAuth w then r.step ≠ .done
  else if !manager.supportsUnauthorizedRecovery w then false
  else if r.mode = .external && !manager.hasExternalAuth w then false
  else r.step ≠ .done

/-- `UnauthorizedRecovery::next`: whether the step succeeded. -/
def UnauthorizedRecovery.next (manager : AuthManager W) (r : UnauthorizedRecovery) (w : W) :
    Bool × UnauthorizedRecovery × W :=
  if !r.hasNext manager w then
    (false, r, w)
  else
    match r.step with
    | .reload =>
      match manager.reloadIfAccountIdMatches r.expectedAccountId w with
      | (.reloadedChanged, w) | (.reloadedNoChange, w) => (true, { r with step := .refreshToken }, w)
      | (.skipped, w) => (false, { r with step := .done }, w)
    | .refreshToken | .externalRefresh =>
      match manager.refreshTokenFromAuthority w with
      | (true, w) => (true, { r with step := .done }, w)
      | (false, w) => (false, r, w)
    | .done => (true, r, w)

/-- `CodexRecovery`. -/
def codexRecovery (manager : AuthManager W) : Recovery W UnauthorizedRecovery η String where
  hasNext := UnauthorizedRecovery.hasNext manager
  next r w :=
    match r.next manager w with
    | (true, r, w) => (.ok (), r, w)
    | (false, r, w) =>
      (.error (.other "credential refresh failed; run `muse-codex login` again"), r, w)

/-! ## What a turn can do -/

/-- A failure that may pass: an error of the send that another send may not meet, or a server
error. -/
def Prestream.isTransient (env : Prestream W R H L T η ε) : Except (SendError η ε) T → Bool
  | .ok response => isServerError (env.responseStatus response)
  | .error (.http e) => env.isRetryableSendError e
  | .error (.other _) => false

section Turn

variable (env : Prestream W R H L T η ε)

/-- A turn that failed in a way that may pass, and did nothing more than to wait. -/
def Prestream.Retries (acts : List (Act L T η ε)) : Prop :=
  ∃ outcome waits, env.isTransient outcome = true ∧ acts = .sent outcome :: waits ∧
    ∀ act ∈ waits, ∃ delay, act = .slept delay

/-- A turn that met a 401 and took one step of the recovery, with this result. -/
def Prestream.Recovers (acts : List (Act L T η ε)) (result : Except (SendError η ε) Unit) : Prop :=
  ∃ response locks, env.responseStatus response = unauthorized ∧
    acts = .sent (.ok response) :: locks ++ [.recovered result] ∧
    ∀ act ∈ locks, ∃ lock, act = .locked (.ok lock)

/-- A turn that returned: the outcome of its send, which is a 401 only if there is no recovery or it
has no next step, or the error of the lock or of the step of the recovery. -/
def Prestream.Returns (acts : List (Act L T η ε)) (result : Except (SendError η ε) T)
    (s : Attempt W R L) : Prop :=
  (acts = [.sent result] ∧ ∀ response, result = .ok response →
    env.responseStatus response = unauthorized → ∀ r ∈ s.recovery, env.hasNext r s.world = false) ∨
  (∃ response e, env.responseStatus response = unauthorized ∧
    acts = [.sent (.ok response), .locked (.error e)] ∧ result = .error e) ∨
  ∃ e, env.Recovers acts (.error e) ∧ result = .error e

/-- The recovery offers at most this many steps that succeed, whatever happens around it. -/
def Recovery.OffersAtMost (recovery : Recovery W R η ε) : ℕ → R → Prop
  | 0, r => ∀ w, recovery.hasNext r w = false
  | k + 1, r => ∀ w w', recovery.hasNext r w = true → (recovery.next r w').1 = .ok () →
      recovery.OffersAtMost k (recovery.next r w').2.1

end Turn

/-- The steps that the recovery of the stored credentials has left. -/
def UnauthorizedRecoveryStep.left : UnauthorizedRecoveryStep → ℕ
  | .reload => 2
  | .refreshToken => 1
  | .externalRefresh => 1
  | .done => 0

/-- A recovery that is done has no next step. -/
theorem UnauthorizedRecovery.hasNext_of_done {manager : AuthManager W} {r : UnauthorizedRecovery}
    (h : r.step = .done) (w : W) : r.hasNext manager w = false := by
  simp [UnauthorizedRecovery.hasNext, h]

/-- A step that succeeds leaves one step less. -/
theorem UnauthorizedRecovery.next_left {manager : AuthManager W} {r r' : UnauthorizedRecovery}
    {w w' : W} (h : r.next manager w = (true, r', w')) : r'.step.left + 1 = r.step.left := by
  unfold UnauthorizedRecovery.next at h
  split at h
  · cases h
  · rename_i hnext
    split at h
    · rename_i hstep
      split at h
      · cases h
        rw [hstep]
        rfl
      · cases h
        rw [hstep]
        rfl
      · cases h
    · rename_i hstep
      split at h
      · cases h
        rw [hstep]
        rfl
      · cases h
    · rename_i hstep
      split at h
      · cases h
        rw [hstep]
        rfl
      · cases h
    · rename_i hstep
      rw [hasNext_of_done hstep] at hnext
      exact absurd rfl hnext

/-- The recovery of the stored credentials reloads them and refreshes them, once each, or refreshes
external ones once. -/
theorem codexRecovery_offersAtMost (manager : AuthManager W) {n : ℕ} {r : UnauthorizedRecovery}
    (hn : r.step.left = n) : (codexRecovery (η := η) manager).OffersAtMost n r := by
  induction n generalizing r with
  | zero =>
    intro w
    apply UnauthorizedRecovery.hasNext_of_done
    rcases hstep : r.step with _ | _ | _ | _ <;> simp_all [UnauthorizedRecoveryStep.left]
  | succ n ih =>
    intro w w' _ hok
    rcases hnext : r.next manager w' with ⟨_ | _, r', w''⟩
    · simp only [codexRecovery, hnext] at hok
      cases hok
    · have hleft := UnauthorizedRecovery.next_left hnext
      simp only [codexRecovery, hnext]
      exact ih (by omega)

/-- The outcome of a send. -/
def Act.outcome? : Act L T η ε → Option (Except (SendError η ε) T)
  | .sent outcome => some outcome
  | _ => none

/-- The act is done to the credentials. -/
def Act.onCredentials : Act L T η ε → Bool
  | .locked _ | .recovered _ => true
  | _ => false

/-- What is done to the credentials, while the lock is or is not held: steps of the recovery, the
first of them after the lock was taken, if there is a home for it. -/
def LockFirst (refreshLockHome : Option H) (held : Option L) (acts : List (Act L T η ε)) : Prop :=
  ∃ steps, (∀ act ∈ steps, ∃ result, act = .recovered result) ∧
    (acts = steps ∧ (held.isSome ∨ refreshLockHome = none ∨ steps = []) ∨
      held = none ∧ refreshLockHome.isSome ∧
        ((∃ lock, acts = .locked (.ok lock) :: steps) ∨ ∃ e, acts = [.locked (.error e)]))

variable {env : Prestream W R H L T η ε} {refreshLockHome : Option H} {s s' : Attempt W R L}
  {acts locks : List (Act L T η ε)}

/-- The lock is taken in these acts, or it need not be. -/
def TakesLock (refreshLockHome : Option H) (held held' : Option L)
    (locks : List (Act L T η ε)) : Prop :=
  (locks = [] ∧ held' = held ∧ (held.isSome ∨ refreshLockHome = none)) ∨
    ∃ lock, locks = [.locked (.ok lock)] ∧ held = none ∧ refreshLockHome.isSome ∧ held' = some lock

/-- A lock that is taken was not held, or is the one that was. -/
theorem takeLock_ok (h : takeLock env refreshLockHome s = (locks, .ok (), s')) :
    TakesLock refreshLockHome s.refreshLock s'.refreshLock locks ∧
      s'.transientAttempts = s.transientAttempts := by
  rcases hheld : s.refreshLock with _ | lock
  · rcases refreshLockHome with _ | home
    · simp only [takeLock, hheld] at h
      cases h
      exact ⟨.inl ⟨rfl, hheld, .inr rfl⟩, rfl⟩
    · simp only [takeLock, hheld] at h
      rcases hlock : env.acquireCredentialRefreshLock home s.world with ⟨e | lock, w⟩
      · rw [hlock] at h
        cases h
      · rw [hlock] at h
        cases h
        exact ⟨.inr ⟨lock, rfl, rfl, rfl, rfl⟩, rfl⟩
  · simp only [takeLock, hheld] at h
    cases h
    exact ⟨.inl ⟨rfl, hheld, .inl rfl⟩, rfl⟩

/-- A lock that cannot be taken was not held. -/
theorem takeLock_error {e : SendError η ε}
    (h : takeLock env refreshLockHome s = (locks, .error e, s')) :
    locks = [.locked (.error e)] ∧ s.refreshLock = none ∧ refreshLockHome.isSome := by
  unfold takeLock at h
  split at h
  · rename_i home hheld
    split at h
    · cases h
    · cases h
      exact ⟨rfl, hheld, rfl⟩
  · cases h

/-- What a step of the recovery starts over from. -/
theorem recover_again {r : R} (h : recover env refreshLockHome s r = (acts, .again s')) :
    ∃ locks w, acts = locks ++ [.recovered (.ok ())] ∧
      TakesLock refreshLockHome s.refreshLock s'.refreshLock locks ∧
      s'.transientAttempts = s.transientAttempts ∧ (env.next r w).1 = .ok () ∧
      s'.recovery = some (env.next r w).2.1 := by
  unfold recover at h
  split at h
  · cases h
  · rename_i locks s₁ hlock
    obtain ⟨hlocks, hattempts⟩ := takeLock_ok hlock
    split at h
    · rename_i r' w' hnext
      cases h
      refine ⟨locks, s₁.world, rfl, hlocks, hattempts, ?_, ?_⟩
      · rw [hnext]
      · rw [hnext]
    · cases h

/-- What a step of the recovery returns. -/
theorem recover_done {r : R} {result : Except (SendError η ε) T}
    (h : recover env refreshLockHome s r = (acts, .done (result, s'))) :
    ∃ e, result = .error e ∧
      (acts = [.locked (.error e)] ∧ s.refreshLock = none ∧ refreshLockHome.isSome ∨
        ∃ locks held, acts = locks ++ [.recovered (.error e)] ∧
          TakesLock refreshLockHome s.refreshLock held locks) := by
  unfold recover at h
  split at h
  · rename_i locks e s₁ hlock
    cases h
    exact ⟨e, rfl, .inl (takeLock_error hlock)⟩
  · rename_i locks s₁ hlock
    split at h
    · cases h
    · rename_i e r' w' hnext
      cases h
      exact ⟨e, rfl, .inr ⟨locks, s₁.refreshLock, rfl, (takeLock_ok hlock).1⟩⟩

/-- The wait for a server error is a sleep, if anything. -/
theorem mem_waitToRetry {response : T} {w : W} {act : Act L T η ε}
    (h : act ∈ (waitToRetry env response w).1) : ∃ delay, act = .slept delay := by
  unfold waitToRetry at h
  split at h
  · rename_i delay hdelay
    split at h
    · exact ⟨delay, List.mem_singleton.mp h⟩
    · cases h
  · cases h

/-- When the loop starts over for a response: there is an attempt left for a server error, or a
step of the recovery succeeded. -/
theorem settleResponse_again {response : T}
    (h : settleResponse env refreshLockHome s response = (acts, .again s')) :
    (isServerError (env.responseStatus response) = true ∧
      s.transientAttempts + 1 < maxPrestreamAttempts ∧ (∀ act ∈ acts, ∃ delay, act = .slept delay) ∧
      s'.transientAttempts = s.transientAttempts + 1 ∧ s'.refreshLock = s.refreshLock ∧
      s'.recovery = s.recovery) ∨
    ∃ r, env.responseStatus response = unauthorized ∧ s.recovery = some r ∧
      env.hasNext r s.world = true ∧ recover env refreshLockHome s r = (acts, .again s') := by
  unfold settleResponse at h
  split at h
  · rename_i hserver
    rw [Bool.and_eq_true, decide_eq_true_eq] at hserver
    cases h
    exact .inl ⟨hserver.1, hserver.2, fun act => mem_waitToRetry, rfl, rfl, rfl⟩
  · split at h
    · cases h
    · rename_i hstatus
      split at h
      · cases h
      · rename_i r hrecovery
        split at h
        · cases h
        · rename_i hnext
          exact .inr ⟨r, not_not.mp hstatus, hrecovery, by simpa using hnext, h⟩

/-- When the loop returns for a response: it returns the response, unless it is a 401 that has a
step of the recovery, or it returns what that step does. -/
theorem settleResponse_done {response : T} {result : Except (SendError η ε) T}
    (h : settleResponse env refreshLockHome s response = (acts, .done (result, s'))) :
    (acts = [] ∧ result = .ok response ∧ (env.responseStatus response = unauthorized →
      ∀ r ∈ s'.recovery, env.hasNext r s'.world = false)) ∨
    ∃ r, env.responseStatus response = unauthorized ∧
      recover env refreshLockHome s r = (acts, .done (result, s')) := by
  unfold settleResponse at h
  split at h
  · cases h
  · split at h
    · rename_i hstatus
      cases h
      exact .inl ⟨rfl, rfl, fun h => absurd h hstatus⟩
    · rename_i hstatus
      split at h
      · rename_i hrecovery
        cases h
        refine .inl ⟨rfl, rfl, ?_⟩
        rw [hrecovery]
        nofun
      · rename_i r hrecovery
        split at h
        · rename_i hnext
          cases h
          refine .inl ⟨rfl, rfl, ?_⟩
          rw [hrecovery]
          intro _ r' hr'
          obtain rfl : r = r' := by simpa using hr'
          simpa using hnext
        · exact .inr ⟨r, not_not.mp hstatus, h⟩

/-- When the loop starts over for an error of the send. -/
theorem settleError_again {error : SendError η ε} (h : settleError env s error = .again s') :
    env.isTransient (.error error) = true ∧ s.transientAttempts + 1 < maxPrestreamAttempts ∧
      s' = { s with transientAttempts := s.transientAttempts + 1 } := by
  unfold settleError at h
  split at h
  · split at h
    · rename_i hretry
      rw [Bool.and_eq_true, decide_eq_true_eq] at hretry
      cases h
      exact ⟨hretry.2, hretry.1, rfl⟩
    · cases h
  · cases h

/-- When the loop returns for an error of the send, it returns that error. -/
theorem settleError_done {error : SendError η ε} {result : Except (SendError η ε) T}
    (h : settleError env s error = .done (result, s')) : result = .error error := by
  unfold settleError at h
  split at h
  · split at h
    · cases h
    · cases h
      rfl
  · cases h
    rfl

/-- A turn that starts over: it failed in a way that may pass and there is an attempt left, or it
met a 401 and a step of the recovery succeeded. -/
theorem prestreamTurn_again (h : prestreamTurn env refreshLockHome s = (acts, .again s')) :
    (env.Retries acts ∧ s.transientAttempts + 1 < maxPrestreamAttempts ∧
      s'.transientAttempts = s.transientAttempts + 1 ∧ s'.refreshLock = s.refreshLock ∧
      s'.recovery = s.recovery) ∨
    ∃ response locks r w w', env.responseStatus response = unauthorized ∧
      acts = .sent (.ok response) :: locks ++ [.recovered (.ok ())] ∧
      TakesLock refreshLockHome s.refreshLock s'.refreshLock locks ∧
      s'.transientAttempts = s.transientAttempts ∧ s.recovery = some r ∧ env.hasNext r w = true ∧
      (env.next r w').1 = .ok () ∧ s'.recovery = some (env.next r w').2.1 := by
  unfold prestreamTurn at h
  split at h
  · rename_i response w hsend
    rcases hsettle : settleResponse env refreshLockHome { s with world := w } response
      with ⟨acts', next⟩
    rw [hsettle] at h
    cases h
    rcases settleResponse_again hsettle with
      ⟨hserver, hattempts, hwaits, hrest⟩ | ⟨r, hstatus, hrecovery, hnext, hrecover⟩
    · exact .inl ⟨⟨.ok response, acts', hserver, rfl, hwaits⟩, hattempts, hrest⟩
    · obtain ⟨locks, w', rfl, hlocks, hrest, hok, hstep⟩ := recover_again hrecover
      exact .inr ⟨response, locks, r, w, w', hstatus, rfl, hlocks, hrest, hrecovery, hnext, hok,
        hstep⟩
  · rename_i error w hsend
    rcases hsettle : settleError env { s with world := w } error with s₁ | result
    · rw [hsettle] at h
      cases h
      obtain ⟨htransient, hattempts, rfl⟩ := settleError_again hsettle
      exact .inl ⟨⟨.error error, [], htransient, rfl, by simp⟩, hattempts, rfl, rfl, rfl⟩
    · rw [hsettle] at h
      cases h

/-- Nothing is done to the credentials. -/
theorem lockFirst_nil {held : Option L} :
    LockFirst refreshLockHome held ([] : List (Act L T η ε)) :=
  ⟨[], by simp, .inl ⟨rfl, .inr (.inr rfl)⟩⟩

/-- A step of the recovery, under the lock, before what is done with the lock as it is then. -/
theorem TakesLock.lockFirst {held held' : Option L} {rest : List (Act L T η ε)}
    {result : Except (SendError η ε) Unit} (h : TakesLock refreshLockHome held held' locks)
    (hrest : LockFirst refreshLockHome held' rest) :
    LockFirst refreshLockHome held (locks ++ .recovered result :: rest) := by
  obtain ⟨steps, hsteps, hcases⟩ := hrest
  have hall : ∀ act ∈ Act.recovered result :: steps, ∃ result, act = .recovered result :=
    List.forall_mem_cons.mpr ⟨⟨result, rfl⟩, hsteps⟩
  refine ⟨.recovered result :: steps, hall, ?_⟩
  rcases h with ⟨rfl, rfl, hneed⟩ | ⟨lock, rfl, rfl, hhome, rfl⟩
  · -- The lock is held or has no home, so it is not taken later either.
    rcases hcases with ⟨rfl, -⟩ | ⟨hheld, hhome, -⟩
    · exact .inl ⟨rfl, hneed.imp_right .inl⟩
    · rcases hneed with hneed | hneed
      · rw [hheld] at hneed
        cases hneed
      · rw [hneed] at hhome
        cases hhome
  · rcases hcases with ⟨rfl, -⟩ | ⟨hheld, -⟩
    · exact .inr ⟨rfl, hhome, .inl ⟨lock, rfl⟩⟩
    · cases hheld

/-- Of a lock that is taken nothing is recorded but that it was taken. -/
theorem TakesLock.locked {held held' : Option L} (h : TakesLock refreshLockHome held held' locks) :
    ∀ act ∈ locks, ∃ lock, act = .locked (.ok lock) := by
  rcases h with ⟨rfl, -⟩ | ⟨lock, rfl, -⟩
  · simp
  · intro act hact
    exact ⟨lock, List.mem_singleton.mp hact⟩

/-- All that a step of the recovery does is done to the credentials. -/
theorem TakesLock.filter_onCredentials {held held' : Option L} {response : T}
    {result : Except (SendError η ε) Unit} (h : TakesLock refreshLockHome held held' locks) :
    (Act.sent (.ok response) :: locks ++ [Act.recovered result]).filter Act.onCredentials =
      locks ++ [Act.recovered result] := by
  have hlocks : locks.filter Act.onCredentials = locks := by
    rw [List.filter_eq_self]
    intro act hact
    obtain ⟨lock, rfl⟩ := h.locked act hact
    rfl
  rw [List.cons_append, List.filter_cons_of_neg (by simp [Act.onCredentials]), List.filter_append,
    hlocks]
  rfl

/-- A turn that returns, and what it does to the credentials. -/
theorem prestreamTurn_done {result : Except (SendError η ε) T}
    (h : prestreamTurn env refreshLockHome s = (acts, .done (result, s'))) :
    env.Returns acts result s' ∧
      LockFirst refreshLockHome s.refreshLock (acts.filter Act.onCredentials) := by
  unfold prestreamTurn at h
  split at h
  · rename_i response w hsend
    rcases hsettle : settleResponse env refreshLockHome { s with world := w } response
      with ⟨acts', next⟩
    rw [hsettle] at h
    cases h
    rcases settleResponse_done hsettle with ⟨rfl, rfl, hunavailable⟩ | ⟨r, hstatus, hrecover⟩
    · refine ⟨.inl ⟨rfl, ?_⟩, lockFirst_nil⟩
      intro response' hresponse
      cases hresponse
      exact hunavailable
    · obtain ⟨e, rfl, ⟨rfl, hheld, hhome⟩ | ⟨locks, held, rfl, hlocks⟩⟩ := recover_done hrecover
      · refine ⟨.inr (.inl ⟨response, e, hstatus, rfl, rfl⟩), ?_⟩
        exact ⟨[], by simp, .inr ⟨hheld, hhome, .inr ⟨e, rfl⟩⟩⟩
      · refine ⟨.inr (.inr ⟨e, ⟨response, locks, hstatus, rfl, hlocks.locked⟩, rfl⟩), ?_⟩
        rw [← List.cons_append, hlocks.filter_onCredentials]
        exact hlocks.lockFirst lockFirst_nil
  · rename_i error w hsend
    rcases hsettle : settleError env { s with world := w } error with s₁ | ⟨result', s₁⟩
    · rw [hsettle] at h
      cases h
    · rw [hsettle] at h
      cases h
      obtain rfl := settleError_done hsettle
      exact ⟨.inl ⟨rfl, nofun⟩, lockFirst_nil⟩

/-! ## Whole runs -/

/-- The waits of a turn are not done to the credentials. -/
theorem Prestream.Retries.filter_onCredentials (h : env.Retries acts) :
    acts.filter Act.onCredentials = [] := by
  obtain ⟨outcome, waits, -, rfl, hwaits⟩ := h
  rw [List.filter_eq_nil_iff]
  intro act hact
  rcases List.mem_cons.mp hact with rfl | hact
  · simp [Act.onCredentials]
  · obtain ⟨delay, rfl⟩ := hwaits act hact
    simp [Act.onCredentials]

variable {records : List (List (Act L T η ε))} {result : Except (SendError η ε) T}
  {final : Attempt W R L}

/-- The lock is taken first in every run of the loop. -/
theorem lockFirst_of_runs
    (h : Runs (prestreamTurn env refreshLockHome) s records (result, final)) :
    LockFirst refreshLockHome s.refreshLock (records.flatten.filter Act.onCredentials) := by
  generalize hend : (result, final) = returned at h
  induction h with
  | done hturn =>
    subst hend
    rw [List.flatten_singleton]
    exact (prestreamTurn_done hturn).2
  | again hturn _ ih =>
    rw [List.flatten_cons, List.filter_append]
    rcases prestreamTurn_again hturn with
      ⟨hretries, -, -, hlock, -⟩ | ⟨response, locks, r, w, w', -, rfl, hlocks, -⟩
    · rw [hretries.filter_onCredentials, List.nil_append, ← hlock]
      exact ih hend
    · rw [hlocks.filter_onCredentials, List.append_assoc]
      exact hlocks.lockFirst (ih hend)

/-- The one outcome of a turn that starts over for a failure that may pass. -/
theorem Prestream.Retries.outcomes (h : env.Retries acts) :
    ∃ outcome, acts.filterMap Act.outcome? = [outcome] ∧ env.isTransient outcome = true := by
  obtain ⟨outcome, waits, htransient, rfl, hwaits⟩ := h
  refine ⟨outcome, ?_, htransient⟩
  have hnone : waits.filterMap Act.outcome? = [] := by
    rw [List.filterMap_eq_nil_iff]
    intro act hact
    obtain ⟨delay, rfl⟩ := hwaits act hact
    rfl
  rw [List.filterMap_cons_some (f := Act.outcome?) rfl, hnone]

/-- The one outcome of a turn that takes a step of the recovery. -/
theorem Prestream.Recovers.outcomes {step : Except (SendError η ε) Unit}
    (h : env.Recovers acts step) :
    ∃ outcome, acts.filterMap Act.outcome? = [outcome] ∧ env.isTransient outcome = false := by
  obtain ⟨response, locks, hstatus, rfl, hlocks⟩ := h
  refine ⟨.ok response, ?_, ?_⟩
  · have hnone : locks.filterMap Act.outcome? = [] := by
      rw [List.filterMap_eq_nil_iff]
      intro act hact
      obtain ⟨lock, rfl⟩ := hlocks act hact
      rfl
    rw [List.cons_append, List.filterMap_cons_some (f := Act.outcome?) rfl, List.filterMap_append,
      hnone]
    rfl
  · rw [Prestream.isTransient, hstatus]
    rfl

/-- The one outcome of a turn that returns. -/
theorem Prestream.Returns.outcomes (h : env.Returns acts result s) :
    (acts.filterMap Act.outcome?).length = 1 := by
  rcases h with ⟨rfl, -⟩ | ⟨response, e, -, rfl, -⟩ | ⟨e, hrecovers, -⟩
  · rfl
  · rfl
  · obtain ⟨outcome, houtcome, -⟩ := hrecovers.outcomes
    rw [houtcome, List.length_singleton]

/-- The outcomes that are followed by another send: each turn before the last retries or recovers,
and those that retry use up the attempts that are left. -/
theorem resends_of_runs (hattempts : s.transientAttempts + 1 ≤ maxPrestreamAttempts)
    (h : Runs (prestreamTurn env refreshLockHome) s records (result, final)) :
    ∃ before last, records = before ++ [last] ∧ env.Returns last result final ∧
      (∀ acts ∈ before, env.Retries acts ∨ env.Recovers acts (.ok ())) ∧
      s.transientAttempts + (before.flatten.filterMap Act.outcome?).countP env.isTransient + 1 ≤
        maxPrestreamAttempts := by
  generalize hend : (result, final) = returned at h
  induction h with
  | @done s record returned hturn =>
    subst hend
    exact ⟨[], record, rfl, (prestreamTurn_done hturn).1, by simp, hattempts⟩
  | @again s s' record records returned hturn _ ih =>
    rcases prestreamTurn_again hturn with ⟨hretries, hleft, hs', -⟩ |
      ⟨response, locks, r, w, w', hstatus, hacts, hlocks, hs', -⟩
    · obtain ⟨before, last, rfl, hreturns, hresends, hcount⟩ := ih (by omega) hend
      obtain ⟨outcome, houtcome, htransient⟩ := hretries.outcomes
      refine ⟨record :: before, last, rfl, hreturns,
        List.forall_mem_cons.mpr ⟨.inl hretries, hresends⟩, ?_⟩
      rw [List.flatten_cons, List.filterMap_append, houtcome, List.singleton_append,
        List.countP_cons_of_pos htransient]
      omega
    · have hrecovers : env.Recovers record (.ok ()) :=
        ⟨response, locks, hstatus, hacts, hlocks.locked⟩
      obtain ⟨before, last, rfl, hreturns, hresends, hcount⟩ := ih (by omega) hend
      obtain ⟨outcome, houtcome, htransient⟩ := hrecovers.outcomes
      refine ⟨record :: before, last, rfl, hreturns,
        List.forall_mem_cons.mpr ⟨.inr hrecovers, hresends⟩, ?_⟩
      rw [List.flatten_cons, List.filterMap_append, houtcome, List.singleton_append,
        List.countP_cons_of_neg (by simp [htransient])]
      omega

/-- The turns that the loop has left: those that the recovery offers, and the attempts that are
left for failures that may pass. -/
def TurnsLeft (env : Prestream W R H L T η ε) (n : ℕ) (s : Attempt W R L) : Prop :=
  ∃ k, (∀ r ∈ s.recovery, env.OffersAtMost k r) ∧
    s.transientAttempts + n + 1 = k + maxPrestreamAttempts ∧
    s.transientAttempts + 1 ≤ maxPrestreamAttempts

/-- Each turn that starts over lowers the turns that are left. -/
theorem TurnsLeft.again {n : ℕ} (hleft : TurnsLeft env n s)
    (hturn : prestreamTurn env refreshLockHome s = (acts, .again s')) :
    ∃ m, m < n ∧ TurnsLeft env m s' := by
  obtain ⟨k, hoffers, hn, hattempts⟩ := hleft
  rcases prestreamTurn_again hturn with ⟨-, hless, hs', -, hrecovery⟩ |
    ⟨response, locks, r, w, w', -, -, -, hs', hr, hnext, hok, hr'⟩
  · refine ⟨n - 1, by omega, k, ?_, by omega, by omega⟩
    rw [hrecovery]
    exact hoffers
  · have hoffer := hoffers r hr
    rcases k with _ | k
    · -- A recovery that offers nothing has no next step.
      have hnone := hoffer w
      rw [hnext] at hnone
      cases hnone
    · refine ⟨n - 1, by omega, k, ?_, by omega, by omega⟩
      rw [hr']
      intro r₁ hr₁
      obtain rfl := Option.some.inj hr₁
      exact hoffer w w' hnext hok

/-- What a run of the loop does, cut into the turns after which the request is sent again and the
last one. -/
structure Bounded (env : Prestream W R H L T η ε) (refreshLockHome : Option H) (k : ℕ)
    (before : List (List (Act L T η ε))) (last : List (Act L T η ε))
    (result : Except (SendError η ε) T) (final : Attempt W R L) : Prop where
  /-- The request is sent at most this often. -/
  sends : ((before ++ [last]).flatten.filterMap Act.outcome?).length ≤ k + maxPrestreamAttempts
  /-- It is sent again only for a failure that may pass, or for a 401 with one step of the recovery
  that succeeded. -/
  resends : ∀ acts ∈ before, env.Retries acts ∨ env.Recovers acts (.ok ())
  /-- It is sent again at most once for a failure that may pass. -/
  transient : (before.flatten.filterMap Act.outcome?).countP env.isTransient ≤ 1
  /-- The lock is taken at most once, and before the first step of the recovery. -/
  lockFirst :
    LockFirst refreshLockHome none ((before ++ [last]).flatten.filter Act.onCredentials)
  /-- What is returned. -/
  returns : env.Returns last result final

/-- Each turn sends the request once. -/
theorem length_outcomes (h : ∀ acts ∈ records, (acts.filterMap Act.outcome?).length = 1) :
    (records.flatten.filterMap Act.outcome?).length = records.length := by
  rw [List.filterMap_flatten, List.length_flatten, List.map_map]
  have hone : records.map (List.length ∘ List.filterMap Act.outcome?) =
      List.replicate records.length 1 := by
    rw [List.eq_replicate_iff]
    refine ⟨by simp, ?_⟩
    intro n hn
    obtain ⟨acts, hacts, rfl⟩ := List.mem_map.mp hn
    exact h acts hacts
  rw [hone]
  simp

/-- With a recovery that offers at most `k` steps, or none, the loop returns within
`k + MAX_PRESTREAM_ATTEMPTS` sends, and does what it may do between them. -/
theorem executeWith401Recovery_bounded (env : Prestream W R H L T η ε)
    (refreshLockHome : Option H) {k : ℕ} {recovery : Option R}
    (hoffers : ∀ r ∈ recovery, env.OffersAtMost k r) (w : W) :
    ∃ before last result final,
      (∀ fuel, k + maxPrestreamAttempts ≤ fuel →
        executeWith401Recovery env refreshLockHome fuel recovery w =
          some (before ++ [last], result, final)) ∧
      Bounded env refreshLockHome k before last result final := by
  have hmax : maxPrestreamAttempts = 2 := rfl
  let start : Attempt W R L := ⟨0, none, recovery, w⟩
  have hleft : TurnsLeft env (k + 1) start :=
    ⟨k, hoffers, by simp only [start]; omega, by simp only [start]; omega⟩
  obtain ⟨records, ⟨result, final⟩, hruns, hlength⟩ := exists_runs TurnsLeft.again hleft
  obtain ⟨before, last, rfl, hreturns, hresends, hcount⟩ :=
    resends_of_runs (by simp only [start]; omega) hruns
  refine ⟨before, last, result, final, fun fuel hfuel => hruns.run_eq (by omega), ?_⟩
  have hone : ∀ acts ∈ before ++ [last], (acts.filterMap Act.outcome?).length = 1 := by
    intro acts hacts
    rcases List.mem_append.mp hacts with hacts | hacts
    · rcases hresends acts hacts with hretries | hrecovers
      · obtain ⟨outcome, houtcome, -⟩ := hretries.outcomes
        rw [houtcome, List.length_singleton]
      · obtain ⟨outcome, houtcome, -⟩ := hrecovers.outcomes
        rw [houtcome, List.length_singleton]
    · obtain rfl := List.mem_singleton.mp hacts
      exact hreturns.outcomes
  exact {
    sends := by
      rw [length_outcomes hone]
      omega
    resends := hresends
    transient := by
      simp only [start] at hcount
      omega
    lockFirst := lockFirst_of_runs hruns
    returns := hreturns }

/-- A client that answers with these statuses, and credentials that can be recovered. -/
def answering : Prestream (List ℕ) UnauthorizedRecovery String Unit ℕ String String where
  toRecovery := codexRecovery
    ⟨fun _ => false, fun _ => false, fun _ => true, fun _ w => (.reloadedNoChange, w),
      fun w => (true, w)⟩
  send
    | [] => (.error (.other "connection closed"), [])
    | status :: rest => (.ok status, rest)
  isTimeout _ := false
  isConnect _ := true
  isRequest _ := false
  isBody _ := false
  responseStatus status := status
  retryAfter _ := none
  sleep _ w := w
  acquireCredentialRefreshLock _ w := (.ok (), w)

/-- A 401, a server error, another 401 and a success take the four sends that there are. -/
theorem executeWith401Recovery_bounded_four :
    ∃ before last final,
      executeWith401Recovery answering (some "/home/muse-codex") 4
          (some ⟨.reload, none, .managed⟩) [401, 503, 401, 200, 200] =
        some (before ++ [last], .ok 200, final) ∧ before.length = 3 ∧ final.world = [200] ∧
      Bounded answering (some "/home/muse-codex") 2 before last (.ok 200) final := by
  have hoffers : ∀ r ∈ some (⟨.reload, none, .managed⟩ : UnauthorizedRecovery),
      answering.OffersAtMost 2 r := by
    intro r hr
    obtain rfl := Option.some.inj hr
    exact codexRecovery_offersAtMost _ rfl
  obtain ⟨before, last, result, final, hrun, hbounded⟩ :=
    executeWith401Recovery_bounded answering (some "/home/muse-codex") hoffers
      [401, 503, 401, 200, 200]
  have hreached : executeWith401Recovery answering (some "/home/muse-codex") 4
      (some ⟨.reload, none, .managed⟩) [401, 503, 401, 200, 200] =
      some ([[.sent (.ok 401), .locked (.ok ()), .recovered (.ok ())], [.sent (.ok 503)],
        [.sent (.ok 401), .recovered (.ok ())], [.sent (.ok 200)]], .ok 200,
        ⟨1, some (), some ⟨.done, none, .managed⟩, [200]⟩) := rfl
  have hfour := hrun 4 (by decide)
  obtain ⟨hrecords, hresult, hfinal⟩ : _ ∧ .ok 200 = result ∧ _ = final := by
    simpa using hreached.symm.trans hfour
  subst hresult hfinal
  refine ⟨before, last, _, hfour, ?_, rfl, hbounded⟩
  have hlength := congrArg List.length hrecords
  simp at hlength
  omega

end MuseCodex.Transport
