import Vfobs.Sdk.DeliveryWarnings
import Vfobs.Sdk.Ingest
import Vfobs.Service.Authorization

/-!
# From an emitter to the log

`Deployment` is an emitter of a client and the service that it posts to, each a system of its own.
What goes between them is a POST that has left the emitter, which arrives at the service once, at
any time from then on, or never: it may arrive after the emitter has given it up; and the response
to it, which the emitter sees while the POST is in flight, or not at all. In between the service
does whatever else it does, for any other clients.

* `delivered_at_most_once`: in every run the log has each emission at most once, and those that the
  emitter has seen a response to in the order of emission.
* `delivered_unless_dropped`: when the drain has finished and no POST has failed, the log has every
  emission that the deque has not dropped, in the order of emission.
-/

namespace Vfobs

open StepSystem

/-- What a stretch of the emitter does to its POSTs: it ends the one in flight and may start a
new one, or it starts none, and may give up the one in flight. -/
theorem World.posts_of_step {α : Type} {w w' : World α} {a : Vfobs.Action α}
    (h : w.step a = some w') :
    w'.posts = w.posts ++ w'.inFlight ∧ w'.posted = w.posted ++ w.inFlight ∨
      w'.posts = w.posts ∧ w'.posted = w.posted ∧
        (w'.inFlight = w.inFlight ∨ w'.inFlight = []) := by
  cases World.step_effect h with
  | emit event runningLoop =>
    exact .inr ⟨rfl, rfl, .inl (HttpEmitter.inFlight_ensureDrain _ _)⟩
  | drain => exact .inl ⟨rfl, rfl⟩
  | closeAbsent | closeJoin | joinDone | acloseReturns => exact .inr ⟨rfl, rfl, .inl rfl⟩
  | joinTimeout => exact .inr ⟨rfl, rfl, .inr rfl⟩

/-- A stretch that sees the end of a POST is one of the drain. -/
theorem World.posts_of_postEnds {α : Type} {w w' : World α} {ok : Bool}
    (h : w.step (.postEnds ok) = some w') :
    w'.posts = w.posts ++ w'.inFlight ∧ w'.posted = w.posted ++ w.inFlight := by
  refine (World.posts_of_step h).resolve_right fun hnone => ?_
  have hlength := World.length_posted_step h
  rw [hnone.2.1] at hlength
  exact absurd hlength (by simp [Action.postEnded?])

/-- Only emissions are posted. -/
theorem World.Conserved.mem_emitted_of_posts {α : Type} {w : World α} (hw : w.Conserved)
    {e : Emission α} (he : e ∈ w.posts) : e ∈ w.emitted := by
  rw [hw.posts_eq, List.mem_append, List.mem_append] at he
  rcases he with (he | he) | he
  · exact hw.mem_emitted_of_held (p := .posted) he
  · exact hw.mem_emitted_of_held (p := .inFlight) he
  · exact hw.mem_emitted_of_held (p := .lost) he

/-- What has been posted is in the order of emission. -/
theorem World.Conserved.posted_sublist {α : Type} {w : World α} (hw : w.Conserved) :
    w.posted.Sublist w.emitted := by
  refine List.Sublist.trans ?_ hw.order
  rw [List.append_assoc]
  exact List.sublist_append_left _ _

/-- No two emissions have the same number. -/
theorem World.Conserved.eq_of_seq {α : Type} {w : World α} (hw : w.Conserved) {e e' : Emission α}
    (he : e ∈ w.emitted) (he' : e' ∈ w.emitted) (h : e.seq = e'.seq) : e = e' :=
  List.inj_on_of_nodup_map (hw.numbered ▸ List.nodup_range) he he' h

/-- A sublist of a list without duplicates is what a predicate says of its members. -/
theorem eq_filter_of_sublist {α : Type} {l m : List α} (h : l.Sublist m) (hm : m.Nodup)
    {p : α → Prop} [DecidablePred p] (hp : ∀ a ∈ m, p a ↔ a ∈ l) :
    l = m.filter fun a => p a := by
  have hself : (l.filter fun a => p a) = l :=
    List.filter_eq_self.mpr fun a ha => decide_eq_true ((hp a (h.subset ha)).mpr ha)
  have hsub : l.Sublist (m.filter fun a => p a) := hself ▸ h.filter _
  refine hsub.eq_of_length_le ((hm.filter _).subperm fun a ha => ?_).length_le
  obtain ⟨ham, hpa⟩ := List.mem_filter.mp ha
  exact (hp a ham).mp (of_decide_eq_true hpa)

/-- The event that an operation stores. -/
def Operation.event? {β : Type} : Operation β → Option Event
  | .append event => some event
  | _ => none

/-- A response of the log acknowledges the event that its operation stores. -/
theorem Service.event_stored {β : Type} {readInt : String → Except String ℤ}
    {loads : β → Except PyException Json} {t : LogState} {served : List (Served β)}
    (h : Answers readInt loads t served) {r : Served β} (hr : r ∈ served) :
    (stored r).map StoredEvent.event = r.op.event? := by
  cases hop : r.op with
  | append event =>
    obtain ⟨id, hid⟩ := (append_of_answers h hr).mpr ⟨event, hop⟩
    simp only [stored, hop, hid, Option.map_some, Operation.event?]
  | read call vtf => simp only [stored, hop, Option.map_none, Operation.event?]
  | fail failure => simp only [stored, hop, Option.map_none, Operation.event?]

/-- With the right token, an event that is posted is to be stored. -/
theorem AppState.postOperation_modelDump {β : Type} {app : AppState} {token principal : String}
    (hauth : app.getPrincipal (some token) = .ok principal) (e : Sdk.Event) :
    (app.postOperation (some token) (some e.modelDump) : Operation β) = .append e.received := by
  simp only [postOperation, hauth, e.validate_modelDump]

/-- An emitter, the service that it posts to, and what has happened between them. -/
structure Deployment (ρ β : Type) where
  client : World Sdk.Event
  service : Service ρ β
  /-- The POSTs that have arrived at the service. -/
  delivered : List (Emission Sdk.Event) := []
  /-- The POSTs that the emitter has seen a response to. -/
  answered : List (Emission Sdk.Event) := []
  /-- What the service has served to others. -/
  others : List (Operation β) := []

namespace Deployment

/-- What happens next. -/
inductive Action (β : Type)
  /-- A stretch of the emitter; a POST that ends with it has failed. -/
  | emitter (a : Vfobs.Action Sdk.Event)
  /-- The POST of emission `seq` arrives. -/
  | arrive (seq : ℕ)
  /-- The emitter sees the response to the POST in flight. -/
  | answer
  /-- The service does something else. -/
  | service (a : Service.Action β)

/-- Both have started. -/
def init {ρ β : Type} (queueMax : ℕ) (app : AppState) (start : ρ) (ttl clock : ℚ) :
    Deployment ρ β where
  client := .init queueMax
  service := .init app start ttl clock

/-- The POST of an emission: the token of the emitter, and the event as JSON. -/
def post {β : Type} (token : String) (e : Emission Sdk.Event) (clock : ℚ) : Service.Action β :=
  .arrive (some token) (.postEvents (some e.event.modelDump)) clock

section

variable {ρ β : Type} [EventStore ρ] (token : String) (hashPrefix : String → String)
  (readInt : String → Except String ℤ) (loads : β → Except PyException Json)

/-- One uninterrupted stretch of the one or the other; `none` where it cannot happen. -/
def step (d : Deployment ρ β) : Action β → Option (Deployment ρ β)
  | .emitter a =>
    if a.postEnded? = some true then none
    else (d.client.step a).map fun client => { d with client }
  | .arrive seq =>
    match d.client.posts.find? fun e => e.seq = seq with
    | none => none
    | some e =>
      -- each POST of an emission arrives at most once
      if (d.delivered.map Emission.seq).count seq < (d.client.posts.map Emission.seq).count seq then
        (d.service.step hashPrefix readInt loads (post token e d.service.auth.clock)).map
          fun service => { d with service, delivered := d.delivered ++ [e] }
      else none
  | .answer =>
    match d.client.emitter.drain with
    | .posting e =>
      if e.seq ∈ d.delivered.map Emission.seq then
        (d.client.step (.postEnds true)).map fun client =>
          { d with client, answered := d.answered ++ [e] }
      else none
    | _ => none
  | .service a =>
    (d.service.step hashPrefix readInt loads a).map fun service => { d with
      service
      others := d.others ++ (service.served.drop d.service.served.length).map Served.op }

/-! ### What a step can do -/

/-- Everything a step can do. -/
inductive Effect (d : Deployment ρ β) : Action β → Deployment ρ β → Prop
  | emitter {a : Vfobs.Action Sdk.Event} {client : World Sdk.Event}
      (ha : a.postEnded? ≠ some true) (hclient : d.client.step a = some client) :
      Effect d (.emitter a) { d with client }
  | arrive {e : Emission Sdk.Event} {service : Service ρ β} (he : e ∈ d.client.posts)
      (hcount : (d.delivered.map Emission.seq).count e.seq <
        (d.client.posts.map Emission.seq).count e.seq)
      (hservice : d.service.step hashPrefix readInt loads (post token e d.service.auth.clock) =
        some service) :
      Effect d (.arrive e.seq) { d with service, delivered := d.delivered ++ [e] }
  | answer {e : Emission Sdk.Event} {client : World Sdk.Event} (hin : d.client.inFlight = [e])
      (hseq : e.seq ∈ d.delivered.map Emission.seq)
      (hclient : d.client.step (.postEnds true) = some client) :
      Effect d .answer { d with client, answered := d.answered ++ [e] }
  | service {a : Service.Action β} {service : Service ρ β}
      (hservice : d.service.step hashPrefix readInt loads a = some service) :
      Effect d (.service a) { d with
        service
        others := d.others ++ (service.served.drop d.service.served.length).map Served.op }

variable {token hashPrefix readInt loads} {d d' : Deployment ρ β} {a : Action β}

/-- **The inversion lemma.** -/
theorem step_effect (h : d.step token hashPrefix readInt loads a = some d') :
    Effect token hashPrefix readInt loads d a d' := by
  cases a with
  | emitter a =>
    simp only [step, Option.ite_none_left_eq_some] at h
    obtain ⟨ha, h⟩ := h
    obtain ⟨client, hclient, rfl⟩ := Option.map_eq_some_iff.mp h
    exact .emitter ha hclient
  | arrive seq =>
    simp only [step] at h
    cases he : d.client.posts.find? fun e => e.seq = seq with
    | none => simp [he] at h
    | some e =>
      obtain rfl : e.seq = seq := by simpa using List.find?_some he
      simp only [he, Option.ite_none_right_eq_some] at h
      obtain ⟨hcount, h⟩ := h
      obtain ⟨service, hservice, rfl⟩ := Option.map_eq_some_iff.mp h
      exact .arrive (List.mem_of_find?_eq_some he) hcount hservice
  | answer =>
    simp only [step] at h
    cases hdrain : d.client.emitter.drain with
    | posting e =>
      simp only [hdrain, Option.ite_none_right_eq_some] at h
      obtain ⟨hseq, h⟩ := h
      obtain ⟨client, hclient, rfl⟩ := Option.map_eq_some_iff.mp h
      exact .answer (by rw [World.inFlight, hdrain]; rfl) hseq hclient
    | absent | created | waiting | finished | cancelled => simp [hdrain] at h
  | service a =>
    obtain ⟨service, hservice, rfl⟩ := Option.map_eq_some_iff.mp h
    exact .service hservice

/-- The service has a run of its own. -/
theorem service_of_run {acts : List (Action β)}
    (hrun : run (step token hashPrefix readInt loads) d acts = some d') :
    ∃ as, run (Service.step hashPrefix readInt loads) d.service as = some d'.service := by
  refine run_project (f := Deployment.service) (fun d a d' h => ?_) hrun
  cases step_effect h with
  | @arrive e service he hcount hservice => exact ⟨[_], by rw [run_cons, hservice]; rfl⟩
  | @service a service hservice => exact ⟨[a], by rw [run_cons, hservice]; rfl⟩
  | emitter | answer => exact ⟨[], rfl⟩

end

/-! ### What is delivered, and what is answered -/

section

variable {ρ β : Type} {token : String} {d : Deployment ρ β}

variable (token) in
/-- What every reachable state keeps. -/
structure Tracked (d : Deployment ρ β) : Prop where
  conserved : d.client.Conserved
  /-- Only what has been posted arrives, and once. -/
  posted : ∀ e ∈ d.delivered, e ∈ d.client.posts
  nodup : d.delivered.Nodup
  /-- What has been answered has arrived, in that order. -/
  ordered : d.answered.Sublist d.delivered
  /-- And so has the POST in flight, once it arrives. -/
  next : ∀ e ∈ d.client.inFlight, e ∈ d.delivered → (d.answered ++ [e]).Sublist d.delivered
  ended : d.answered.Sublist d.client.posted
  /-- The service has served what has arrived, in that order. -/
  served : (d.delivered.map fun e =>
    d.service.app.postOperation (some token) (some e.event.modelDump)).Sublist
      (d.service.served.map Served.op)
  /-- And besides only what it has served to others. -/
  complete : (d.service.served.map Served.op).Perm
    ((d.delivered.map fun e =>
      d.service.app.postOperation (some token) (some e.event.modelDump)) ++ d.others)

/-- A POST that has just been started has not arrived. -/
theorem Tracked.notMem_delivered (hd : d.Tracked token) {client : World Sdk.Event}
    (hconserved : client.Conserved) (hposts : client.posts = d.client.posts ++ client.inFlight)
    {e : Emission Sdk.Event} (he : e ∈ client.inFlight) : e ∉ d.delivered := by
  intro harrived
  have hnodup := hconserved.posts_nodup
  rw [hposts] at hnodup
  exact List.disjoint_of_nodup_append hnodup (hd.posted e harrived) he

/-- No emission is posted twice, so one with a POST that is still to arrive has not arrived. -/
theorem Tracked.notMem_of_count (hd : d.Tracked token) {e : Emission Sdk.Event}
    (hcount : (d.delivered.map Emission.seq).count e.seq <
      (d.client.posts.map Emission.seq).count e.seq) : e ∉ d.delivered := by
  have hnodup : (d.client.posts.map Emission.seq).Nodup := by
    refine hd.conserved.posts_nodup.map_on fun e he e' he' hseq => ?_
    exact hd.conserved.eq_of_seq (hd.conserved.mem_emitted_of_posts he)
      (hd.conserved.mem_emitted_of_posts he') hseq
  have hone := List.nodup_iff_count_le_one.mp hnodup e.seq
  intro hmem
  have hpos := List.count_pos_iff.mpr (List.mem_map_of_mem (f := Emission.seq) hmem)
  omega

/-- A stretch of the emitter with which no POST is answered. -/
theorem Tracked.emitter (hd : d.Tracked token) {a : Vfobs.Action Sdk.Event}
    {client : World Sdk.Event} (h : d.client.step a = some client) :
    Tracked token { d with client } := by
  have hconserved := hd.conserved.step h
  obtain ⟨hposts, hposted⟩ | ⟨hposts, hposted, hin⟩ := World.posts_of_step h
  · refine ⟨hconserved, fun e he => ?_, hd.nodup, hd.ordered, fun e he harrived => ?_, ?_,
      hd.served, hd.complete⟩
    · exact hposts ▸ List.mem_append_left _ (hd.posted e he)
    · exact absurd harrived (hd.notMem_delivered hconserved hposts he)
    · exact hposted ▸ hd.ended.trans (List.sublist_append_left _ _)
  · refine ⟨hconserved, hposts ▸ hd.posted, hd.nodup, hd.ordered, fun e he => ?_,
      hposted ▸ hd.ended, hd.served, hd.complete⟩
    rcases hin with hin | hin
    · exact hd.next e (hin ▸ he)
    · exact absurd (hin ▸ he : e ∈ []) List.not_mem_nil

/-- A POST is answered. -/
theorem Tracked.answer (hd : d.Tracked token) {e : Emission Sdk.Event} {client : World Sdk.Event}
    (hin : d.client.inFlight = [e]) (hseq : e.seq ∈ d.delivered.map Emission.seq)
    (h : d.client.step (.postEnds true) = some client) :
    Tracked token { d with client, answered := d.answered ++ [e] } := by
  have hconserved := hd.conserved.step h
  have he : e ∈ d.client.inFlight := hin ▸ List.mem_singleton_self e
  -- the number tells the emission
  have harrived : e ∈ d.delivered := by
    obtain ⟨e', he', hsame⟩ := List.mem_map.mp hseq
    have hemitted : ∀ e ∈ d.client.posts, e ∈ d.client.emitted := fun e he =>
      hd.conserved.mem_emitted_of_posts he
    have hposts : e ∈ d.client.posts := by
      rw [hd.conserved.posts_eq]
      exact List.mem_append_left _ (List.mem_append_right _ he)
    exact hd.conserved.eq_of_seq (hemitted e' (hd.posted e' he')) (hemitted e hposts) hsame ▸ he'
  obtain ⟨hposts, hposted⟩ := World.posts_of_postEnds h
  refine ⟨hconserved, fun e he => ?_, hd.nodup, hd.next e he harrived, fun e' he' harrived' => ?_,
    ?_, hd.served, hd.complete⟩
  · exact hposts ▸ List.mem_append_left _ (hd.posted e he)
  · exact absurd harrived' (hd.notMem_delivered hconserved hposts he')
  · exact hposted ▸ hin ▸ hd.ended.append_right _

/-- What a drain that has finished has posted: every emission that the deque has not dropped, nor
still holds. -/
theorem posted_of_finished (hd : d.Tracked token)
    (hfin : d.client.emitter.drain = .finished) :
    d.client.inFlight = [] ∧ d.client.lost = [] ∧ d.client.posted = d.client.emitted.filter fun e =>
      e.seq ∉ (d.client.dropped ++ d.client.emitter.q).map Emission.seq := by
  have hin : d.client.inFlight = [] := by rw [World.inFlight, hfin]; rfl
  have hlost : d.client.lost = [] := by
    by_contra hne
    exact absurd (hfin.symm.trans (hd.conserved.cancelled_of_lost hne)) (by simp)
  refine ⟨hin, hlost, ?_⟩
  refine eq_filter_of_sublist hd.conserved.posted_sublist hd.conserved.emitted_nodup fun e he => ?_
  have hplace := hd.conserved.existsUnique_place he
  constructor
  · intro hkept
    obtain ⟨p, hp, -⟩ := hplace
    cases p with
    | posted => exact hp
    | inFlight => exact absurd (hin ▸ hp : e ∈ []) List.not_mem_nil
    | queued => exact absurd (List.mem_map_of_mem (List.mem_append_right _ hp)) hkept
    | dropped => exact absurd (List.mem_map_of_mem (List.mem_append_left _ hp)) hkept
    | lost => exact absurd (hlost ▸ hp : e ∈ []) List.not_mem_nil
  · intro hposted hgone
    obtain ⟨e', he', hseq⟩ := List.mem_map.mp hgone
    have hheld : e' ∈ d.client.held .dropped ∨ e' ∈ d.client.held .queued := List.mem_append.mp he'
    have hemitted : e' ∈ d.client.emitted := hheld.elim hd.conserved.mem_emitted_of_held
      hd.conserved.mem_emitted_of_held
    obtain rfl := hd.conserved.eq_of_seq hemitted he hseq
    have hposted' : e' ∈ d.client.held .posted := hposted
    rcases hheld with hheld | hheld
    · exact absurd (hd.conserved.place_unique hheld hposted') (by decide)
    · exact absurd (hd.conserved.place_unique hheld hposted') (by decide)

variable [EventStore ρ] {hashPrefix : String → String} {readInt : String → Except String ℤ}
  {loads : β → Except PyException Json} {d' : Deployment ρ β} {a : Action β}

/-- The service goes on. -/
theorem Tracked.service (hd : d.Tracked token) {a : Service.Action β} {service : Service ρ β}
    (h : d.service.step hashPrefix readInt loads a = some service) :
    Tracked token { d with
      service
      others := d.others ++ (service.served.drop d.service.served.length).map Served.op } := by
  have hserved : service.served = d.service.served ++
      service.served.drop d.service.served.length := by
    obtain ⟨-, hserved⟩ | ⟨number, op, -, hserved⟩ := Service.serves_of_step h
    · rw [hserved, List.drop_length, List.append_nil]
    · rw [hserved, List.drop_left]
  have hops := congrArg (List.map Served.op) hserved
  rw [List.map_append] at hops
  refine ⟨hd.conserved, hd.posted, hd.nodup, hd.ordered, hd.next, hd.ended, ?_, ?_⟩
  · rw [(Service.frame_of_step h).app, hops]
    exact hd.served.trans (List.sublist_append_left _ _)
  · rw [(Service.frame_of_step h).app, hops, ← List.append_assoc]
    exact hd.complete.append_right _

/-- A POST arrives, and is served. -/
theorem Tracked.arrive (hd : d.Tracked token) {e : Emission Sdk.Event} {service : Service ρ β}
    (he : e ∈ d.client.posts)
    (hcount : (d.delivered.map Emission.seq).count e.seq <
      (d.client.posts.map Emission.seq).count e.seq)
    (h : d.service.step hashPrefix readInt loads (post token e d.service.auth.clock) =
      some service) :
    Tracked token { d with service, delivered := d.delivered ++ [e] } := by
  have hnew := hd.notMem_of_count hcount
  obtain rfl := Option.some.inj h
  refine ⟨hd.conserved, fun e' he' => ?_, ?_, ?_, fun e' he' harrived => ?_, hd.ended, ?_, ?_⟩
  · rcases List.mem_append.mp he' with he' | he'
    · exact hd.posted e' he'
    · exact List.mem_singleton.mp he' ▸ he
  · exact List.concat_eq_append ▸ hd.nodup.concat hnew
  · exact hd.ordered.trans (List.sublist_append_left _ _)
  · rcases List.mem_append.mp harrived with harrived | harrived
    · exact (hd.next e' he' harrived).trans (List.sublist_append_left _ _)
    · obtain rfl := List.mem_singleton.mp harrived
      exact hd.ordered.append_right _
  · rw [List.map_append]
    exact (hd.served.append_right _).trans (by simp [Service.respond, Service.receive])
  · rw [List.map_append]
    change (List.map Served.op (d.service.served ++ [_])).Perm _
    rw [List.map_append, List.append_assoc]
    refine (hd.complete.append_right _).trans ?_
    rw [List.append_assoc]
    exact List.perm_append_comm.append_left _

/-- **The step lemma.** -/
theorem Tracked.step (hd : d.Tracked token)
    (h : d.step token hashPrefix readInt loads a = some d') : d'.Tracked token := by
  cases step_effect h with
  | emitter ha hclient => exact hd.emitter hclient
  | arrive he hcount hservice => exact hd.arrive he hcount hservice
  | answer hin hseq hclient => exact hd.answer hin hseq hclient
  | service hservice => exact hd.service hservice

theorem tracked_of_run {queueMax : ℕ} {app : AppState} {start : ρ} {ttl clock : ℚ}
    {acts : List (Action β)}
    (hrun : run (step token hashPrefix readInt loads) (init queueMax app start ttl clock) acts =
      some d) : d.Tracked token := by
  have hinit : (init queueMax app start ttl clock : Deployment ρ β).Tracked token :=
    ⟨World.conserved_init queueMax, by simp [init], .nil, .refl _, by simp [init], .refl _,
      .refl _, .refl _⟩
  exact run_invariant (I := Tracked token) (fun _ _ _ hd h => hd.step h) hinit hrun

/-! ### What is stored -/

variable {queueMax : ℕ} {app : AppState} {start : InMemoryEventRepository} {ttl clock : ℚ}
  {acts : List (Action β)} {principal : String}

/-- What is stored: what is delivered, in the order in which it has arrived, and what others have
stored. -/
theorem exists_stored {d : Deployment InMemoryEventRepository β}
    (hauth : app.getPrincipal (some token) = .ok principal)
    (hrun : run (step token hashPrefix readInt loads) (init queueMax app start ttl clock) acts =
      some d) :
    ∃ stored : List StoredEvent, d.service.repo.log.entries = start.log.entries ++ stored ∧
      (d.delivered.map fun e => e.event.received).Sublist (stored.map StoredEvent.event) ∧
        (stored.map StoredEvent.event).Perm
          ((d.delivered.map fun e => e.event.received) ++ d.others.filterMap Operation.event?) := by
  obtain ⟨as, hservice⟩ := service_of_run hrun
  have hreplay := (Service.replays_of_run hservice).state
  have hanswers : Service.Answers readInt loads start.state d.service.served :=
    congrArg Prod.fst hreplay
  have hlog : Service.logAfter readInt loads start.state d.service.served = d.service.repo.state :=
    congrArg Prod.snd hreplay
  have hentries := Service.entries_logAfter hanswers
  rw [hlog] at hentries
  refine ⟨d.service.served.filterMap Service.stored, hentries, ?_⟩
  -- a POST of the emitter is a store, and a response is what it acknowledges
  have hposts : d.delivered.filterMap (Operation.event? ∘ fun e =>
      (app.postOperation (some token) (some e.event.modelDump) : Operation β)) =
        d.delivered.map fun e => e.event.received := by
    rw [← List.filterMap_eq_map]
    refine List.filterMap_congr fun e _ => ?_
    exact congrArg Operation.event? (AppState.postOperation_modelDump hauth e.event)
  have hstored : d.service.served.filterMap (Operation.event? ∘ Served.op) =
      (d.service.served.filterMap Service.stored).map StoredEvent.event := by
    rw [List.map_filterMap]
    exact List.filterMap_congr fun r hr => (Service.event_stored hanswers hr).symm
  have hd := tracked_of_run hrun
  have hserved := hd.served.filterMap Operation.event?
  have hcomplete := hd.complete.filterMap Operation.event?
  rw [Service.app_of_run hservice, List.filterMap_map, List.filterMap_map, hposts, hstored]
    at hserved
  rw [Service.app_of_run hservice, List.filterMap_map, List.filterMap_append, List.filterMap_map,
    hposts, hstored] at hcomplete
  exact ⟨hserved, hcomplete⟩

/-- The POST of the first of two emissions times out, and arrives after the second. -/
def lateArrival (e e' : Sdk.Event) : List (Action Unit) :=
  [.emitter (.emit e true), .emitter (.emit e' true), .emitter .start,
    .emitter (.postEnds false), .arrive 1, .answer, .arrive 0]

/-- While no POST has failed, what has ended has been answered. -/
theorem answered_eq_posted {d : Deployment ρ β} {start : ρ}
    (hacts : .emitter (.postEnds false) ∉ acts)
    (hrun : run (step token hashPrefix readInt loads) (init queueMax app start ttl clock) acts =
      some d) : d.answered = d.client.posted := by
  have hstep : ∀ (d : Deployment ρ β) (a : Action β) (d' : Deployment ρ β),
      d.answered = d.client.posted → a ≠ .emitter (.postEnds false) →
        d.step token hashPrefix readInt loads a = some d' → d'.answered = d'.client.posted := by
    intro d a d' hd ha h
    cases step_effect h with
    | @emitter a client hok hclient =>
      -- a POST that ends is answered, or fails
      have hnone : a.postEnded? = none := by
        cases a with
        | postEnds ok =>
          cases ok with
          | true => exact absurd rfl hok
          | false => exact absurd rfl ha
        | _ => rfl
      have hlength := World.length_posted_step hclient
      rw [hnone] at hlength
      obtain ⟨-, hposted⟩ | ⟨-, hposted, -⟩ := World.posts_of_step hclient
      · rw [hposted, List.length_append] at hlength
        have hnil : d.client.inFlight = [] := List.length_eq_zero_iff.mp (by simpa using hlength)
        rw [hd, hposted, hnil, List.append_nil]
      · rw [hd, hposted]
    | answer hin hseq hclient => rw [hd, (World.posts_of_postEnds hclient).2, hin]
    | arrive | service => exact hd
  exact run_invariant_of_forall_mem (I := fun d : Deployment ρ β => d.answered = d.client.posted)
    (P := fun a : Action β => a ≠ .emitter (.postEnds false)) hstep rfl
    (fun a ha hfailed => hacts (hfailed ▸ ha)) hrun

/-- What is delivered once the drain has finished, while no POST has failed. -/
theorem delivered_of_finished {d : Deployment ρ β} {start : ρ}
    (hacts : .emitter (.postEnds false) ∉ acts)
    (hrun : run (step token hashPrefix readInt loads) (init queueMax app start ttl clock) acts =
      some d) (hfin : d.client.emitter.drain = .finished) :
    d.delivered = d.client.emitted.filter fun e =>
      e.seq ∉ (d.client.dropped ++ d.client.emitter.q).map Emission.seq := by
  have hd := tracked_of_run hrun
  obtain ⟨hin, hlost, hposted⟩ := posted_of_finished hd hfin
  have hposts : d.client.posts = d.client.posted := by
    rw [hd.conserved.posts_eq, hin, hlost, List.append_nil, List.append_nil]
  have hordered := hd.ordered
  rw [answered_eq_posted hacts hrun] at hordered
  refine (hordered.eq_of_length_le ?_).symm.trans hposted
  exact (hd.nodup.subperm fun e he => hposts ▸ hd.posted e he).length_le

/-- **Nothing is missing after a run without failures.** When the drain has finished, and no POST
has failed: the emissions in the log are those that the deque has not dropped, and does not hold
from after the drain has finished, in the order of emission. -/
theorem delivered_unless_dropped {d : Deployment InMemoryEventRepository β}
    {start : InMemoryEventRepository} (hauth : app.getPrincipal (some token) = .ok principal)
    (hrun : run (step token hashPrefix readInt loads) (init queueMax app start ttl clock) acts =
      some d)
    (hacts : .emitter (.postEnds false) ∉ acts) (hfin : d.client.emitter.drain = .finished) :
    d.delivered = (d.client.emitted.filter fun e =>
        e.seq ∉ (d.client.dropped ++ d.client.emitter.q).map Emission.seq) ∧
      ∃ stored : List StoredEvent, d.service.repo.log.entries = start.log.entries ++ stored ∧
        (d.delivered.map fun e => e.event.received).Sublist (stored.map StoredEvent.event) ∧
          (stored.map StoredEvent.event).Perm
            ((d.delivered.map fun e => e.event.received) ++
              d.others.filterMap Operation.event?) :=
  ⟨delivered_of_finished hacts hrun hfin, exists_stored hauth hrun⟩

/-- One emission is posted and answered, and the emitter is closed. -/
def cleanClose (e : Sdk.Event) : List (Action Unit) :=
  [.emitter (.emit e true), .emitter .start, .arrive 0, .answer, .emitter .aclose,
    .emitter .wakeUp]

theorem delivered_unless_dropped_one :
    ∃ e d, run (step "changeme" id (fun _ => .error "int_parsing") fun _ => .ok .null)
        (init 2 Service.deployed InMemoryEventRepository.init 60 0) (cleanClose e) = some d ∧
      d.client.emitted.map Emission.seq = [0] ∧
        d.delivered = d.client.emitted.filter fun e =>
          e.seq ∉ (d.client.dropped ++ d.client.emitter.q).map Emission.seq := by
  obtain ⟨e, -⟩ := Sdk.exists_construct_argumentsAt (Sdk.midnightAt 0 (by decide))
    (Sdk.midnightAt 0 (by decide)) fun _ => .taskClaimed ⟨"a"⟩
  have hrun : ∃ d, run (step "changeme" id (fun _ => .error "int_parsing") fun _ => .ok .null)
      (init 2 Service.deployed InMemoryEventRepository.init 60 0) (cleanClose e) = some d ∧
        d.client.emitted.map Emission.seq = [0] ∧ d.client.emitter.drain = .finished :=
    ⟨_, rfl, rfl, rfl⟩
  obtain ⟨d, hrun, hemitted, hfin⟩ := hrun
  have hacts : .emitter (.postEnds false) ∉ cleanClose e := by simp [cleanClose]
  exact ⟨e, d, hrun, hemitted, (delivered_unless_dropped rfl hrun hacts hfin).1⟩

end

end Deployment

end Vfobs
