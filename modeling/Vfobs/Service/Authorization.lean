import Vfobs.Service.Refinement

/-!
# Who is let in

Every operation of the service is traced to a request that was entitled to it (`Entitled`), in
every run:

* what is read is answered to a request whose own token vtaskforge has vouched for, in a
  validation that started less than `ttl` before the request arrived, or after that
  (`reads_are_vouched_for`);
* what is stored was posted with the configured token, and acknowledged; nothing else gets into
  the log, and nothing that is acknowledged is left out (`log_is_acknowledged`).
-/

namespace Vfobs

open StepSystem AuthWorld

namespace Service

variable {ρ β : Type} {hashPrefix : String → String} {readInt : String → Except String ℤ}
  {loads : β → Except PyException Json} {ttl : ℚ} {s s' : Service ρ β} {a : Action β}

section entitled

variable (readInt loads ttl s)

/-- vtaskforge has approved the token, in a validation that did not start too long before. -/
def Vouched (token : String) (clock : ℚ) : Prop :=
  ∃ call c principal, Approves loads s.auth call c token principal ∧
    (clock ≤ c.startedAt ∨ clock - c.startedAt < ttl)

/-- The read API lets the token in. -/
def LetsIn (token : Option String) (clock : ℚ) : Prop :=
  match s.app.readAuth with
  | none => False
  | some (.staticPrincipal _) => True
  | some .vtfToken => ∃ t, token = some t ∧ s.Vouched loads ttl t clock

/-- A request is entitled to an operation. -/
def Entitled (arrival : Arrival) : Operation β → Prop
  | .append event => arrival.token = some s.app.ingestAuth.expected ∧
      ∃ j, arrival.request = .postEvents (some j) ∧ AnyEvent.validate j = some event
  | .read call _ => (∃ read, arrival.request = .get read ∧ read.call readInt = .ok call) ∧
      s.LetsIn loads ttl arrival.token arrival.clock
  | .fail _ => True

/-- A request is entitled to wait. -/
def MayWait (arrival : Arrival) : Stage → Prop
  | .validating route call =>
      (∃ read, arrival.request = .get read ∧ read.route readInt = .ok route) ∧
        s.app.readAuth = some .vtfToken ∧ ∃ c, s.auth.calls[call]? = some c ∧
          arrival.token = some c.token ∧ arrival.clock ≤ c.startedAt
  | .fetching call => (∃ read, arrival.request = .get read ∧ read.call readInt = .ok call) ∧
      s.LetsIn loads ttl arrival.token arrival.clock

/-- Everything that has been served, or waits, is traced to a request that is entitled to it. -/
structure Authorized : Prop where
  served : ∀ r ∈ s.served, ∃ arrival, s.arrived[r.number]? = some arrival ∧
    s.Entitled readInt loads ttl arrival r.op
  pending : ∀ p ∈ s.pending, ∃ arrival, s.arrived[p.number]? = some arrival ∧
    s.MayWait readInt loads ttl arrival p.stage

end entitled

/-! ### What is kept -/

/-- Nothing is taken back. -/
structure Extends (s s' : Service ρ β) : Prop where
  app : s'.app = s.app
  arrived : s.arrived <+: s'.arrived
  auth : AuthWorld.Extends s.auth s'.auth

theorem LetsIn.extend {token : Option String} {clock : ℚ} (h : s.LetsIn loads ttl token clock)
    (hext : Extends s s') : s'.LetsIn loads ttl token clock := by
  rw [LetsIn, hext.app]
  rw [LetsIn] at h
  split at h
  · exact h
  · trivial
  · obtain ⟨t, rfl, call, c, principal, happroves, hfresh⟩ := h
    exact ⟨t, rfl, call, c, principal, happroves.extend hext.auth, hfresh⟩

theorem Entitled.extend {arrival : Arrival} {op : Operation β}
    (h : s.Entitled readInt loads ttl arrival op) (hext : Extends s s') :
    s'.Entitled readInt loads ttl arrival op := by
  cases op with
  | append event =>
    rw [Entitled, hext.app]
    exact h
  | read call vtf => exact ⟨h.1, h.2.extend hext⟩
  | fail failure => trivial

theorem MayWait.extend {arrival : Arrival} {stage : Stage}
    (h : s.MayWait readInt loads ttl arrival stage) (hext : Extends s s') :
    s'.MayWait readInt loads ttl arrival stage := by
  cases stage with
  | validating route call =>
    obtain ⟨hroute, happ, c, hcall, hc⟩ := h
    exact ⟨hroute, hext.app ▸ happ, c, hext.auth.calls _ c hcall, hc⟩
  | fetching call => exact ⟨h.1, h.2.extend hext⟩

theorem getElem?_of_prefix {α : Type} {l l' : List α} (h : l <+: l') {i : ℕ} {a : α}
    (ha : l[i]? = some a) : l'[i]? = some a := by
  obtain ⟨later, rfl⟩ := h
  rw [List.getElem?_append_left (List.getElem?_eq_some_iff.mp ha).1, ha]

/-- The invariant, with request `number` in hand. -/
structure InHandOf (readInt : String → Except String ℤ) (loads : β → Except PyException Json)
    (ttl : ℚ) (s : Service ρ β) (number : ℕ) (arrival : Arrival) : Prop where
  authorized : s.Authorized readInt loads ttl
  arrived : s.arrived[number]? = some arrival

/-- Whatever takes nothing back keeps the invariant. -/
theorem Authorized.extend (hs : s.Authorized readInt loads ttl) (hext : Extends s s')
    (hserved : s'.served = s.served) (hpending : s'.pending ⊆ s.pending) :
    s'.Authorized readInt loads ttl where
  served r hr := by
    obtain ⟨arrival, harrival, hentitled⟩ := hs.served r (hserved ▸ hr)
    exact ⟨arrival, getElem?_of_prefix hext.arrived harrival, hentitled.extend hext⟩
  pending p hp := by
    obtain ⟨arrival, harrival, hwait⟩ := hs.pending p (hpending hp)
    exact ⟨arrival, getElem?_of_prefix hext.arrived harrival, hwait.extend hext⟩

theorem authExtends_refl (w : AuthWorld β) : AuthWorld.Extends w w :=
  ⟨fun _ _ h => h, fun _ h => h, le_rfl⟩

theorem Authorized.receive (hs : s.Authorized readInt loads ttl) (token : Option String)
    (request : AppRequest) :
    (s.receive token request).InHandOf readInt loads ttl s.arrived.length
      ⟨token, request, s.auth.clock⟩ where
  authorized := hs.extend ⟨rfl, List.prefix_append _ _, authExtends_refl _⟩ rfl fun _ h => h
  arrived := List.getElem?_concat_length

theorem Authorized.leave (hs : s.Authorized readInt loads ttl) {number : ℕ} {stage : Stage}
    (hp : ⟨number, stage⟩ ∈ s.pending) :
    ∃ arrival, (s.leave number).InHandOf readInt loads ttl number arrival ∧
      s.MayWait readInt loads ttl arrival stage := by
  obtain ⟨arrival, harrival, hwait⟩ := hs.pending _ hp
  refine ⟨arrival, ⟨hs.extend ⟨rfl, List.prefix_rfl, authExtends_refl _⟩ rfl ?_, harrival⟩, hwait⟩
  exact List.filter_sublist.subset

namespace InHandOf

variable {number : ℕ} {arrival : Arrival}

theorem withAuth (hs : s.InHandOf readInt loads ttl number arrival) {auth : AuthWorld β}
    (hext : AuthWorld.Extends s.auth auth) :
    (s.withAuth auth).InHandOf readInt loads ttl number arrival where
  authorized := hs.authorized.extend ⟨rfl, List.prefix_rfl, hext⟩ rfl fun _ h => h
  arrived := hs.arrived

theorem wait (hs : s.InHandOf readInt loads ttl number arrival) {stage : Stage}
    (h : s.MayWait readInt loads ttl arrival stage) :
    (s.wait number stage).Authorized readInt loads ttl where
  served := hs.authorized.served
  pending p hp := by
    rcases List.mem_append.mp hp with hp | hp
    · exact hs.authorized.pending p hp
    · obtain rfl := List.mem_singleton.mp hp
      exact ⟨arrival, hs.arrived, h⟩

variable [EventStore ρ]

theorem respond (hs : s.InHandOf readInt loads ttl number arrival) {op : Operation β}
    (h : s.Entitled readInt loads ttl arrival op) :
    (s.respond readInt loads number op).Authorized readInt loads ttl where
  served r hr := by
    rcases List.mem_append.mp hr with hr | hr
    · exact hs.authorized.served r hr
    · obtain rfl := List.mem_singleton.mp hr
      exact ⟨arrival, hs.arrived, h⟩
  pending := hs.authorized.pending

theorem enter (hs : s.InHandOf readInt loads ttl number arrival) {read : ReadRequest}
    {route : Route} (hread : arrival.request = .get read) (hroute : read.route readInt = .ok route)
    (hin : s.LetsIn loads ttl arrival.token arrival.clock) :
    (s.enter readInt loads number route).Authorized readInt loads ttl := by
  have hcall : read.call readInt = route.call readInt := by
    rw [ReadRequest.call, hroute]
    rfl
  rw [Service.enter]
  cases h : route.call readInt with
  | error failure => exact hs.respond trivial
  | ok call =>
    have hcalls : ∃ read, arrival.request = .get read ∧ read.call readInt = .ok call :=
      ⟨read, hread, hcall.trans h⟩
    dsimp only
    split_ifs
    · exact hs.wait ⟨hcalls, hin⟩
    · exact hs.respond ⟨hcalls, hin⟩

end InHandOf

/-- A principal from the cache has been vouched for. -/
theorem vouched_of_lookup {tokens : List String} (hw : Traced hashPrefix loads tokens ttl s.auth)
    (hinj : NoCollision hashPrefix tokens) {token : String} (htoken : token ∈ tokens)
    {principal : Principal}
    (h : s.auth.auth.lookup (hashPrefix token) s.auth.clock = some principal) :
    s.Vouched loads ttl token s.auth.clock := by
  obtain ⟨call, c, happroves, hown | ⟨-, hfresh⟩⟩ := hw.acceptedFresh_of_lookup hinj htoken h
  · exact nomatch hown
  · exact ⟨call, c, principal, happroves, .inr hfresh⟩

/-- A principal that has just been sent has been vouched for. -/
theorem approves_of_resume {q : Suspended} {upstream : Upstream β} {principal : Principal}
    (hok : (s.auth.auth.resume q.key q.now (validateToken loads upstream)).1 = .ok principal)
    {c : ValidateCall} (hcall : s.auth.calls[q.call]? = some c) :
    Approves loads (s.auth.finish loads q upstream) q.call c c.token principal := by
  obtain ⟨who, hwho, hresume⟩ | ⟨-, hresume⟩ :=
    s.auth.auth.resume_validateToken loads q.key q.now upstream
  · rw [hresume] at hok
    refine ⟨hcall, rfl, upstream, who, ?_, hwho, Except.ok.inj hok⟩
    exact List.mem_append_right _ (List.mem_singleton_self _)
  · rw [hresume] at hok
    exact nomatch hok

/-- What is stored was posted with the configured token. -/
def Posted (s : Service ρ β) : Prop :=
  ∀ r ∈ s.served, ∀ event, r.op = .append event → ∃ body now,
    s.arrived[r.number]? = some ⟨some s.app.ingestAuth.expected, .postEvents (some body), now⟩ ∧
      AnyEvent.validate body = some event

theorem Posted.extend (hs : s.Posted) (happ : s'.app = s.app) (harrived : s.arrived <+: s'.arrived)
    (hserved : s'.served = s.served) : s'.Posted := by
  intro r hr event hop
  obtain ⟨body, now, harrival, hvalid⟩ := hs r (hserved ▸ hr) event hop
  exact ⟨body, now, happ ▸ getElem?_of_prefix harrived harrival, hvalid⟩

theorem Posted.receive (hs : s.Posted) (token : Option String) (request : AppRequest) :
    (s.receive token request).Posted :=
  hs.extend rfl (List.prefix_append _ _) rfl

variable [EventStore ρ]

/-- **The step lemma.** -/
theorem Authorized.step {tokens : List String} (hs : s.Authorized readInt loads ttl)
    (hw : Traced hashPrefix loads tokens ttl s.auth) (hinj : NoCollision hashPrefix tokens)
    (ha : ∀ t ∈ a.token?, t ∈ tokens) (h : s.step hashPrefix readInt loads a = some s') :
    s'.Authorized readInt loads ttl := by
  cases step_effect h with
  | pass hauth =>
    exact hs.extend ⟨rfl, List.prefix_rfl, (AuthWorld.step_effect hauth).extends⟩ rfl fun _ h => h
  | posted token body startedAt =>
    refine (hs.receive _ _).respond ?_
    cases hop : (s.app.postOperation token body : Operation β) with
    | append event =>
      obtain ⟨htoken, j, rfl, hvalid⟩ := AppState.of_postOperation_eq_append hop
      exact ⟨htoken, j, rfl, hvalid⟩
    | read call vtf => exact absurd hop (s.app.postOperation_ne_read token body call vtf)
    | fail failure => trivial
  | refused startedAt failure => exact (hs.receive _ _).respond trivial
  | static startedAt hroute happ =>
    refine (hs.receive _ _).enter rfl hroute ?_
    simp only [LetsIn, Service.receive, happ]
  | @hit token read route startedAt auth principal hroute happ hlookup hauth haccepted =>
    have hext := (AuthWorld.step_effect hauth).extends
    -- what has been vouched for is so still when the request has been let in
    refine ((hs.receive _ _).withAuth hext).enter rfl hroute ?_
    have hin : s.LetsIn loads ttl (some token) s.auth.clock := by
      rw [LetsIn, happ]
      exact ⟨token, rfl, vouched_of_lookup hw hinj (ha _ rfl) hlookup⟩
    exact hin.extend ⟨rfl, List.prefix_append _ _, hext⟩
  | miss hroute happ hle hauth hsuspended =>
    have hext := (AuthWorld.step_effect hauth).extends
    refine ((hs.receive _ _).withAuth hext).wait ⟨⟨_, rfl, hroute⟩, happ, ?_⟩
    subst hsuspended
    exact ⟨_, List.getElem?_concat_length, rfl, hle⟩
  | approved hp hq hauth hok =>
    obtain ⟨arrival, hhand, ⟨read, hread, hroute⟩, happ, c, hcall, htoken, hle⟩ := hs.leave hp
    refine (hhand.withAuth (AuthWorld.step_effect hauth).extends).enter hread hroute ?_
    rw [LetsIn]
    -- the validation is one that the request has waited for
    simp only [Service.withAuth, Service.leave, happ]
    exact ⟨_, htoken, _, c, _, approves_of_resume hok hcall, .inl hle⟩
  | denied e hp hq hauth =>
    obtain ⟨arrival, hhand, -⟩ := hs.leave hp
    exact (hhand.withAuth (AuthWorld.step_effect hauth).extends).respond trivial
  | fetched upstream hp =>
    obtain ⟨arrival, hhand, hwait⟩ := hs.leave hp
    exact hhand.respond hwait

/-- The strategy of the read API is traced as before. -/
theorem traced_step {tokens : List String} (hw : Traced hashPrefix loads tokens ttl s.auth)
    (hinj : NoCollision hashPrefix tokens) (ha : ∀ t ∈ a.token?, t ∈ tokens)
    (h : s.step hashPrefix readInt loads a = some s') :
    Traced hashPrefix loads tokens ttl s'.auth := by
  obtain hauth | ⟨b, hauth, hb⟩ := (frame_of_step h).auth
  · exact hauth ▸ hw
  · exact hw.step hinj (fun t ht => ha t (hb t ht)) hauth

/-- The tokens that are presented to the read API in a run. -/
def presented (acts : List (Action β)) : List String := acts.filterMap Action.token?

theorem authorized_of_run {app : AppState} {start : ρ} {clock : ℚ} {acts : List (Action β)}
    (hinj : NoCollision hashPrefix (presented acts))
    (hrun : run (step hashPrefix readInt loads) (init app start ttl clock) acts = some s) :
    s.Authorized readInt loads ttl := by
  have hpresented : ∀ a ∈ acts, ∀ t ∈ a.token?, t ∈ presented acts := fun a ha t ht =>
    List.mem_filterMap.mpr ⟨a, ha, ht⟩
  have hstart : (init app start ttl clock : Service ρ β).Authorized readInt loads ttl :=
    ⟨by simp [init], by simp [init]⟩
  -- the requests are traced along with the cache, which says what a hit rests on
  refine (run_invariant_of_forall_mem (I := fun s : Service ρ β =>
      s.Authorized readInt loads ttl ∧ Traced hashPrefix loads (presented acts) ttl s.auth)
    (P := fun a : Action β => ∀ t ∈ a.token?, t ∈ presented acts) ?_
    ⟨hstart, traced_init _ ttl clock⟩ hpresented hrun).1
  exact fun s a s' hs ha h => ⟨hs.1.step hs.2 hinj ha h, traced_step hs.2 hinj ha h⟩

/-- **Reads are vouched for.** In every run of a service that asks vtaskforge, over any
repository, as long as no two of the tokens presented have the same key: whatever is read from the
repository is read for a request that asks for it with a token of its own, which vtaskforge has
approved, in a validation that started less than `ttl` before the request arrived, or after
that. -/
theorem reads_are_vouched_for {app : AppState} {start : ρ} {clock : ℚ} {acts : List (Action β)}
    (happ : app.readAuth = some .vtfToken) (hinj : NoCollision hashPrefix (presented acts))
    (hrun : run (step hashPrefix readInt loads) (init app start ttl clock) acts = some s) :
    ∀ r ∈ s.served, ∀ call vtf, r.op = .read call vtf →
      ∃ token read now, s.arrived[r.number]? = some ⟨some token, .get read, now⟩ ∧
        read.call readInt = .ok call ∧
        ∃ validation c principal, Approves loads s.auth validation c token principal ∧
          (now ≤ c.startedAt ∨ now - c.startedAt < ttl) := by
  rintro ⟨number, op, result⟩ hr call vtf rfl
  obtain ⟨⟨token, request, now⟩, harrival, ⟨read, rfl, hcall⟩, hin⟩ :=
    (authorized_of_run hinj hrun).served _ hr
  simp only [LetsIn, app_of_run hrun, happ] at hin
  obtain ⟨t, rfl, hvouched⟩ := hin
  exact ⟨t, read, now, harrival, hcall, hvouched⟩

/-- A cost is asked for, and an event is posted while vtaskforge validates the token. The cost is
asked for again when the token is in the cache. -/
def vouchedActs : List (Action Json) :=
  [.arrive (some "t") (.get (.workgraphCost "wg")) 0,
    .arrive (some "changeme") (.postEvents (some (finishedRun 70).modelDump)) 0,
    .validated 0 (.response 200 (.obj [("user_id", .str "u")])), .pass 9,
    .arrive (some "t") (.get (.workgraphCost "wg")) 9]

theorem reads_are_vouched_for_twice :
    ∃ s, run (step id (fun _ => .error "int_parsing") .ok)
        (init deployed InMemoryEventRepository.init 60 0) vouchedActs = some s ∧
      s.served.map Served.number = [1, 0, 2] ∧
      ∀ r ∈ s.served, ∀ call vtf, r.op = .read call vtf →
        ∃ token read now, s.arrived[r.number]? = some ⟨some token, .get read, now⟩ ∧
          read.call (fun _ => .error "int_parsing") = .ok call ∧
          ∃ validation c principal, Approves .ok s.auth validation c token principal ∧
            (now ≤ c.startedAt ∨ now - c.startedAt < 60) := by
  have hnumbers : (run (step id (fun _ => .error "int_parsing") .ok)
      (init deployed InMemoryEventRepository.init 60 0) vouchedActs).map
        (fun s => s.served.map Served.number) = some [1, 0, 2] := by decide +kernel
  obtain ⟨s, hrun, hnumbers⟩ := Option.map_eq_some_iff.mp hnumbers
  exact ⟨s, hrun, hnumbers, reads_are_vouched_for rfl (fun _ _ _ _ h => h) hrun⟩

/-! ### The log -/

/-- A response that acknowledges nothing. -/
theorem Posted.respond (hs : s.Posted) (number : ℕ) {op : Operation β}
    (hop : ∀ event, op ≠ .append event) : (s.respond readInt loads number op).Posted := by
  intro r hr event happend
  rcases List.mem_append.mp hr with hr | hr
  · exact hs r hr event happend
  · obtain rfl := List.mem_singleton.mp hr
    exact absurd happend (hop event)

theorem Posted.enter (hs : s.Posted) (number : ℕ) (route : Route) :
    (s.enter readInt loads number route).Posted := by
  obtain ⟨op, hop, henter⟩ | ⟨call, -, -, henter⟩ := s.enter_cases readInt loads number route
  · exact henter ▸ hs.respond number hop
  · exact henter ▸ hs.extend rfl List.prefix_rfl rfl

theorem Posted.step (hs : s.Posted) (h : s.step hashPrefix readInt loads a = some s') :
    s'.Posted := by
  have hleave : ∀ number auth, ((s.leave number).withAuth auth).Posted := fun _ _ =>
    hs.extend rfl List.prefix_rfl rfl
  cases step_effect h with
  | pass | miss => exact hs.extend rfl (by simp [withAuth, wait, Service.receive]) rfl
  | posted token body startedAt =>
    intro r hr event hop
    rcases List.mem_append.mp hr with hr | hr
    · exact hs.receive _ _ r hr event hop
    · obtain rfl := List.mem_singleton.mp hr
      obtain ⟨rfl, j, rfl, hvalid⟩ := AppState.of_postOperation_eq_append hop
      exact ⟨j, s.auth.clock, List.getElem?_concat_length, hvalid⟩
  | refused => exact (hs.receive _ _).respond _ (by simp)
  | static => exact (hs.receive _ _).enter _ _
  | hit =>
    refine Posted.enter ?_ _ _
    exact (hs.receive _ _).extend rfl List.prefix_rfl rfl
  | approved => exact (hleave _ _).enter _ _
  | denied => exact (hleave _ _).respond _ (by simp)
  | fetched => exact (hleave _ s.auth).respond _ (by simp)

theorem posted_of_run {app : AppState} {start : ρ} {clock : ℚ} {acts : List (Action β)}
    (hrun : run (step hashPrefix readInt loads) (init app start ttl clock) acts = some s) :
    s.Posted := by
  have hstart : (init app start ttl clock : Service ρ β).Posted := by simp [Posted, init]
  exact run_invariant (I := Posted) (fun _ _ _ hs h => hs.step h) hstart hrun

/-- What a response acknowledges. -/
def stored (r : Served β) : Option StoredEvent :=
  match r.op, r.result with
  | .append event, .created id => some ⟨id, event⟩
  | _, _ => none

/-- A response of the log acknowledges what its operation has stored. -/
theorem stored_of_answers {t : LogState} {r : Served β}
    (h : (t.perform readInt loads r.op).1 = r.result) :
    (t.perform readInt loads r.op).2.log.entries = t.log.entries ++ (stored r).toList := by
  obtain ⟨number, op, result⟩ := r
  dsimp only at h
  subst h
  cases op with
  | append event => rfl
  | read | fail => exact (List.append_nil _).symm

theorem entries_logAfter {t : LogState} {served : List (Served β)}
    (h : Answers readInt loads t served) :
    (logAfter readInt loads t served).log.entries = t.log.entries ++ served.filterMap stored := by
  induction served generalizing t with
  | nil => exact (List.append_nil _).symm
  | cons r served ih =>
    obtain ⟨hresult, hrest⟩ := answers_cons_iff.mp h
    refine (ih hrest).trans ?_
    rw [stored_of_answers hresult, List.append_assoc, List.filterMap_cons]
    cases stored r <;> rfl

/-- Only a store answers with an id. -/
theorem append_of_answers {t : LogState} {r : Served β} {served : List (Served β)}
    (h : Answers readInt loads t served) (hr : r ∈ served) :
    (∃ id, r.result = .created id) ↔ ∃ event, r.op = .append event := by
  obtain ⟨before, after, rfl⟩ := List.append_of_mem hr
  obtain ⟨hresult, -⟩ := answers_cons_iff.mp (answers_append_iff.mp h).2
  rw [← hresult]
  cases r.op with
  | append event => exact iff_of_true ⟨_, rfl⟩ ⟨event, rfl⟩
  | read call vtf =>
    refine iff_of_false ?_ (by simp)
    rintro ⟨id, hcreated⟩
    exact Result.ofRead_ne_created _ id hcreated
  | fail failure => exact iff_of_false (by simp [LogState.perform]) (by simp)

/-- **The log is what has been acknowledged.** In every run over the in-memory repository: after
the events of the start, the log has the events that were acknowledged with a `201`, each under
the id that its response bears, in the order of the responses, and nothing else; and each of them
is what was posted, with the configured token, by the request that its response answers. -/
theorem log_is_acknowledged {app : AppState} {start : InMemoryEventRepository} {clock : ℚ}
    {acts : List (Action β)} {s : Service InMemoryEventRepository β}
    (hrun : run (step hashPrefix readInt loads) (init app start ttl clock) acts = some s) :
    s.repo.log.entries = start.log.entries ++ s.served.filterMap stored ∧
      ∀ r ∈ s.served, ∀ id, r.result = .created id → ∃ event body now,
        stored r = some ⟨id, event⟩ ∧ AnyEvent.validate body = some event ∧
        s.arrived[r.number]? =
          some ⟨some app.ingestAuth.expected, .postEvents (some body), now⟩ := by
  have hreplay := (replays_of_run hrun).state
  have hanswers : Answers readInt loads start.state s.served := congrArg Prod.fst hreplay
  constructor
  · have hlog : logAfter readInt loads start.state s.served = s.repo.state :=
      congrArg Prod.snd hreplay
    exact (congrArg (fun t => t.log.entries) hlog).symm.trans (entries_logAfter hanswers)
  · intro r hr id hid
    obtain ⟨event, hop⟩ := (append_of_answers hanswers hr).mp ⟨id, hid⟩
    obtain ⟨body, now, harrival, hvalid⟩ := posted_of_run hrun r hr event hop
    rw [app_of_run hrun] at harrival
    exact ⟨event, body, now, by simp only [stored, hop, hid], hvalid, harrival⟩

theorem log_is_acknowledged_one :
    ∃ s, run (step id (fun _ => .error "int_parsing") .ok)
        (init deployed InMemoryEventRepository.init 60 0) vouchedActs = some s ∧
      s.repo.log.entries =
        InMemoryEventRepository.init.log.entries ++ s.served.filterMap stored := by
  obtain ⟨s, hrun⟩ : ∃ s, run (step id (fun _ => .error "int_parsing") .ok)
      (init deployed InMemoryEventRepository.init 60 0) vouchedActs = some s :=
    Option.isSome_iff_exists.mp (by decide +kernel)
  exact ⟨s, hrun, (log_is_acknowledged hrun).1⟩

end Service

end Vfobs
