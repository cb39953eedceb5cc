import Dalila.Startup

/-!
# The life of a node

`MayDo` says what `dalila start` may do after what it has done so far, and `Ends` how it may end.
The file proves part by part that `execute` keeps to them, whatever the system answers
(`life_in_order`), and reads off what a run has started (`started_as_asked`).
-/

namespace Dalila

open Program

/-- What has been asked for so far, and what came of it. -/
abbrev StartLog := List (Interaction StartOp StartOp.Res)

variable {past : StartLog} {up down : List Service} {service : Service}

/-! ## What is up -/

/-- The services started so far. -/
def spawned (past : StartLog) : List Service :=
  past.filterMap fun
    | ⟨.spawn service, _⟩ => some service
    | _ => none

/-- The services told to stop so far. -/
def stopped (past : StartLog) : List Service :=
  past.filterMap fun
    | ⟨.abort service, _⟩ => some service
    | _ => none

lemma spawned_append (past past' : StartLog) :
    spawned (past ++ past') = spawned past ++ spawned past' :=
  List.filterMap_append

lemma stopped_append (past past' : StartLog) :
    stopped (past ++ past') = stopped past ++ stopped past' :=
  List.filterMap_append

/-- Neither starts nor stops anything. -/
def StartOp.quiet : StartOp → Bool
  | .spawn _ | .abort _ | .leave => false
  | _ => true

/-- What starts nothing leaves the services as they are. -/
lemma spawned_quiet {o : StartOp} (ho : o.quiet = true) (past : StartLog) (r : o.Res) :
    spawned (past ++ [⟨o, r⟩]) = spawned past := by
  rw [spawned_append]
  cases o with
  | spawn => exact absurd ho (by simp [StartOp.quiet])
  | _ => exact List.append_nil _

lemma stopped_quiet {o : StartOp} (ho : o.quiet = true) (past : StartLog) (r : o.Res) :
    stopped (past ++ [⟨o, r⟩]) = stopped past := by
  rw [stopped_append]
  cases o with
  | abort => exact absurd ho (by simp [StartOp.quiet])
  | _ => exact List.append_nil _

/-- These services run, and nobody has told any of them to stop. -/
structure Up (up : List Service) (past : StartLog) : Prop where
  spawned : Dalila.spawned past = up
  stopped : Dalila.stopped past = []
  staying : ⟨.leave, ()⟩ ∉ past

/-- At first nothing runs. -/
lemma Up.nil : Up [] [] := ⟨rfl, rfl, List.not_mem_nil⟩

lemma Up.quiet {o : StartOp} (hup : Up up past) (ho : o.quiet = true) (r : o.Res) :
    Up up (past ++ [⟨o, r⟩]) where
  spawned := (spawned_quiet ho past r).trans hup.spawned
  stopped := (stopped_quiet ho past r).trans hup.stopped
  staying hleave := by
    rcases List.mem_append.mp hleave with hleave | hleave
    · exact hup.staying hleave
    · obtain ⟨rfl, _⟩ := Sigma.mk.inj (List.mem_singleton.mp hleave)
      exact absurd ho (by simp [StartOp.quiet])

lemma Up.spawn (hup : Up up past) (service : Service) :
    Up (up ++ [service]) (past ++ [⟨.spawn service, ()⟩]) where
  spawned := by
    rw [spawned_append, hup.spawned]
    rfl
  stopped := by
    rw [stopped_append, hup.stopped]
    rfl
  staying hleave := by
    rcases List.mem_append.mp hleave with hleave | hleave
    · exact hup.staying hleave
    · exact absurd (congrArg Sigma.fst (List.mem_singleton.mp hleave)) (by simp)

/-- The node has left, `up` were running then, and `down` have been told to stop. -/
structure Down (up down : List Service) (past : StartLog) : Prop where
  spawned : Dalila.spawned past = up
  stopped : Dalila.stopped past = down
  left : ⟨.leave, ()⟩ ∈ past

lemma Up.leave (hup : Up up past) : Down up [] (past ++ [⟨.leave, ()⟩]) where
  spawned := by
    rw [spawned_append, hup.spawned]
    exact List.append_nil up
  stopped := by
    rw [stopped_append, hup.stopped]
    rfl
  left := by simp

lemma Down.abort (hdown : Down up down past) (service : Service) :
    Down up (down ++ [service]) (past ++ [⟨.abort service, ()⟩]) where
  spawned := by
    rw [spawned_append, hdown.spawned]
    exact List.append_nil up
  stopped := by
    rw [stopped_append, hdown.stopped]
    rfl
  left := List.mem_append_left _ hdown.left

/-! ## What is asked for -/

namespace StartConfig

variable (hmac : Bytes → ClusterKey) (cfg : StartConfig)

/-- What runs while the node joins. -/
def early : List Service :=
  [.accept, .udp] ++ cfg.healthService.toList

/-- What runs once it has joined. -/
def late : List Service :=
  cfg.proxyService.toList ++ cfg.apiService.toList ++ [.detector, .sync]

/-- The node's own address is bound. -/
structure Bound (bound : SocketAddr) (past : StartLog) : Prop where
  tcp : ⟨.bindTcp .cluster cfg.bind, true⟩ ∈ past
  addr : ⟨.localAddr .cluster, some bound⟩ ∈ past
  udp : ⟨.bindUdp bound, true⟩ ∈ past

/-- All that was asked for is bound. -/
structure Listens (past : StartLog) : Prop where
  cluster : ∃ bound, cfg.Bound bound past
  proxy : ∀ proxy ∈ cfg.proxy, ⟨.bindTcp .proxy proxy.listen, true⟩ ∈ past
  api : ∀ api ∈ cfg.api, ⟨.bindTcp .api api.listen, true⟩ ∈ past

/-- A seed has accepted the join, if there was one to ask. -/
def Joined (past : StartLog) : Prop :=
  cfg.seeds = [] ∨ ⟨.join cfg.seeds, true⟩ ∈ past

/-- What may be done after `past`. -/
def MayDo (past : StartLog) : StartOp → Prop
  | .bindTcp _ _ | .bindUdp _ => (∃ key, cfg.check hmac = .ok key) ∧ spawned past = []
  | .localAddr listener => ∃ addr, ⟨.bindTcp listener addr, true⟩ ∈ past
  | .newNode key addr tags => cfg.Listens past ∧ spawned past = [] ∧ cfg.check hmac = .ok key ∧
      tags = cfg.tags ∧
      ∃ bound, ⟨.localAddr .cluster, some bound⟩ ∈ past ∧ addr = cfg.advertise.getD bound
  | .spawn service => cfg.Listens past ∧ service ∉ spawned past ∧
      (service ∈ cfg.early ∨ service ∈ cfg.late ∧ cfg.Joined past) ∧ ⟨.leave, ()⟩ ∉ past
  | .join seeds => cfg.Listens past ∧ seeds = cfg.seeds ∧ spawned past = cfg.early
  | .shutdownSignal => spawned past = cfg.early ++ cfg.late
  | .leave => ⟨.shutdownSignal, true⟩ ∈ past ∧ stopped past = []
  | .abort service => ⟨.leave, ()⟩ ∈ past ∧ service ∈ spawned past ∧ service ∉ stopped past
  | .announceLeave => ⟨.leave, ()⟩ ∈ past ∧ ∀ service ∈ spawned past, service ∈ stopped past

/-- How it ends. -/
def Ends (past : StartLog) : Except StartError Unit → Prop
  | .ok () => ∃ told, past.getLast? = some ⟨.announceLeave, told⟩
  | .error err => stopped past = [] ∧ ⟨.leave, ()⟩ ∉ past ∧
      (cfg.check hmac = .error err → past = [])

variable {hmac cfg}

lemma Bound.append {bound : SocketAddr} (hbound : cfg.Bound bound past) (es : StartLog) :
    cfg.Bound bound (past ++ es) where
  tcp := List.mem_append_left es hbound.tcp
  addr := List.mem_append_left es hbound.addr
  udp := List.mem_append_left es hbound.udp

lemma Listens.append (hlistens : cfg.Listens past) (es : StartLog) : cfg.Listens (past ++ es) where
  cluster := by
    obtain ⟨bound, hbound⟩ := hlistens.cluster
    exact ⟨bound, hbound.append es⟩
  proxy proxy hproxy := List.mem_append_left es (hlistens.proxy proxy hproxy)
  api api hapi := List.mem_append_left es (hlistens.api api hapi)

lemma Joined.append (hjoined : cfg.Joined past) (es : StartLog) : cfg.Joined (past ++ es) :=
  hjoined.imp id fun hmem => List.mem_append_left es hmem

/-! ## Part by part -/

variable {key : ClusterKey}

/-- The cluster's own address is bound first. -/
lemma conforms_bindCluster (hkey : cfg.check hmac = .ok key) :
    Conforms (cfg.MayDo hmac)
      (fun past res => Up [] past ∧ ∀ bound, res = .ok bound → cfg.Bound bound past) []
      cfg.bindCluster := by
  refine .call_bind ⟨⟨key, hkey⟩, rfl⟩ fun ok => ?_
  have hup := Up.nil.quiet (o := .bindTcp .cluster cfg.bind) rfl ok
  cases ok with
  | false => exact .pure ⟨hup, fun bound h => absurd h (by simp)⟩
  | true =>
    refine .call_bind ⟨cfg.bind, by simp⟩ fun bound => ?_
    have hup := hup.quiet (o := .localAddr .cluster) rfl bound
    cases bound with
    | none => exact .pure ⟨hup, fun bound h => absurd h (by simp)⟩
    | some bound =>
      refine .call_bind ⟨⟨key, hkey⟩, hup.spawned⟩ fun ok => ?_
      have hup := hup.quiet (o := .bindUdp bound) rfl ok
      cases ok with
      | false => exact .pure ⟨hup, fun bound h => absurd h (by simp)⟩
      | true =>
        refine .pure ⟨hup, fun bound' h => ?_⟩
        obtain rfl := Except.ok.inj h
        exact ⟨by simp, by simp, by simp⟩

/-- A listener that was asked for is bound, or the bind has failed. -/
lemma conforms_bindListener {err : SocketAddr → StartError}
    {listener : Listener} {addr : Option SocketAddr} (hkey : cfg.check hmac = .ok key)
    (hup : Up [] past) {P : StartLog → Prop} (hP : P past)
    (hkeeps : ∀ past e, P past → P (past ++ [e])) :
    Conforms (cfg.MayDo hmac)
      (fun past res => Up [] past ∧ P past ∧
        (res = .ok () → ∀ a ∈ addr, ⟨.bindTcp listener a, true⟩ ∈ past)) past
      (bindListener listener err addr) := by
  cases addr with
  | none => exact .pure ⟨hup, hP, fun _ a ha => absurd ha (by simp)⟩
  | some addr =>
    refine .call_bind ⟨⟨key, hkey⟩, hup.spawned⟩ fun ok => ?_
    have hup := hup.quiet (o := .bindTcp listener addr) rfl ok
    cases ok with
    | false => exact .pure ⟨hup, hkeeps _ _ hP, fun h => absurd h (by simp)⟩
    | true =>
      refine .pure ⟨hup, hkeeps _ _ hP, fun _ a ha => ?_⟩
      rw [← Option.some.inj ha]
      simp

/-- All listeners are bound before anything is started. -/
lemma conforms_bindOthers {bound : SocketAddr} (hkey : cfg.check hmac = .ok key) (hup : Up [] past)
    (hbound : cfg.Bound bound past) :
    Conforms (cfg.MayDo hmac)
      (fun past res => Up [] past ∧ (res = .ok () → cfg.Bound bound past ∧ cfg.Listens past)) past
      cfg.bindOthers := by
  refine .bind (conforms_bindListener hkey hup hbound fun past e h => h.append [e]) ?_
  rintro res past ⟨hup, hbound, hproxy⟩
  cases res with
  | error err => exact .pure ⟨hup, fun h => absurd h (by simp)⟩
  | ok u =>
    refine Conforms.imp (conforms_bindListener hkey hup (P := fun past => cfg.Bound bound past ∧
      ∀ a ∈ cfg.proxy.map ProxyConfig.listen, ⟨.bindTcp .proxy a, true⟩ ∈ past)
      ⟨hbound, hproxy rfl⟩ ?_) ?_
    · exact fun past e h => ⟨h.1.append [e], fun a ha => List.mem_append_left _ (h.2 a ha)⟩
    · rintro res past ⟨hup, ⟨hbound, hproxy⟩, hapi⟩
      refine ⟨hup, fun hok => ⟨hbound, ⟨bound, hbound⟩, ?_, ?_⟩⟩
      · exact fun proxy h => hproxy proxy.listen (by simp_all)
      · exact fun api h => hapi hok api.listen (by simp_all)

/-- One more service. -/
lemma conforms_spawn {β : Type} {R : StartLog → β → Prop} {f : Unit → Startup β}
    (hlistens : cfg.Listens past) (hup : Up up past) (hnew : service ∉ up)
    (hasked : service ∈ cfg.early ∨ service ∈ cfg.late ∧ cfg.Joined past)
    (hf : cfg.Listens (past ++ [⟨.spawn service, ()⟩]) →
      Up (up ++ [service]) (past ++ [⟨.spawn service, ()⟩]) →
        Conforms (cfg.MayDo hmac) R (past ++ [⟨.spawn service, ()⟩]) (f ())) :
    Conforms (cfg.MayDo hmac) R past (StartOp.call (.spawn service) >>= f) :=
  .call_bind ⟨hlistens, hup.spawned ▸ hnew, hasked, hup.staying⟩ fun _ =>
    hf (hlistens.append _) (hup.spawn service)

/-- Peers can reach the node before it joins. -/
lemma conforms_spawnEarly (hlistens : cfg.Listens past) (hup : Up [] past) :
    Conforms (cfg.MayDo hmac) (fun past _ => Up cfg.early past ∧ cfg.Listens past) past
      cfg.spawnEarly := by
  refine conforms_spawn hlistens hup (by simp) (.inl (by simp [early])) fun hlistens hup => ?_
  refine conforms_spawn hlistens hup (by simp) (.inl (by simp [early])) fun hlistens hup => ?_
  cases hhealth : cfg.healthService with
  | none => exact .pure ⟨by simpa [early, hhealth] using hup, hlistens⟩
  | some health =>
    have hnew : health ∉ [Service.accept, Service.udp] := by
      obtain ⟨port, _, rfl⟩ := Option.map_eq_some_iff.mp hhealth
      simp
    refine conforms_spawn hlistens hup hnew (.inl (by simp [early, hhealth])) fun hlistens hup => ?_
    exact .pure ⟨by simpa [early, hhealth] using hup, hlistens⟩

/-- Without a seed there is nothing to wait for. -/
lemma conforms_joinSeeds (hlistens : cfg.Listens past) (hup : Up cfg.early past) :
    Conforms (cfg.MayDo hmac) (fun past joined => Up cfg.early past ∧ cfg.Listens past ∧
      (joined = true → cfg.Joined past)) past cfg.joinSeeds := by
  unfold joinSeeds
  split_ifs with hseeds
  · exact .pure ⟨hup, hlistens, fun _ => .inl (List.isEmpty_iff.mp hseeds)⟩
  · refine .call ⟨hlistens, rfl, hup.spawned⟩ fun joined => ?_
    refine ⟨hup.quiet rfl joined, hlistens.append _, ?_⟩
    rintro rfl
    exact .inr (by simp)

/-- A service that serves clients, if it was asked for. -/
lemma conforms_spawnListening {listener : Listener} {asked : Option Service}
    (hlistens : cfg.Listens past) (hup : Up up past) (hjoined : cfg.Joined past)
    (hbound : ∀ service ∈ asked, ∃ addr, ⟨.bindTcp listener addr, true⟩ ∈ past)
    (hnew : ∀ service ∈ asked, service ∉ up) (hasked : ∀ service ∈ asked, service ∈ cfg.late) :
    Conforms (cfg.MayDo hmac)
      (fun past res => cfg.Listens past ∧ cfg.Joined past ∧
        ∃ up', Up up' past ∧ (res = .ok () → up' = up ++ asked.toList)) past
      (spawnListening listener asked) := by
  cases asked with
  | none => exact .pure ⟨hlistens, hjoined, up, hup, fun _ => by simp⟩
  | some service =>
    refine .call_bind (hbound service rfl) fun addr => ?_
    have hlistens := hlistens.append [⟨.localAddr listener, addr⟩]
    have hjoined := hjoined.append [⟨.localAddr listener, addr⟩]
    have hup := hup.quiet (o := .localAddr listener) rfl addr
    cases addr with
    | none => exact .pure ⟨hlistens, hjoined, up, hup, fun h => absurd h (by simp)⟩
    | some addr =>
      refine conforms_spawn hlistens hup (hnew service rfl) (.inr ⟨hasked service rfl, hjoined⟩) ?_
      exact fun hlistens hup => .pure ⟨hlistens, hjoined.append _, _, hup, fun _ => rfl⟩

/-- The proxy, the API, the detector and the sync loop come after the join. -/
lemma conforms_spawnLate (hlistens : cfg.Listens past) (hup : Up cfg.early past)
    (hjoined : cfg.Joined past) :
    Conforms (cfg.MayDo hmac)
      (fun past res => ∃ up, Up up past ∧ (res = .ok () → up = cfg.early ++ cfg.late)) past
      cfg.spawnLate := by
  -- each is bound already and not up yet
  have hproxyBound : ∀ service ∈ cfg.proxyService, ∃ addr, ⟨.bindTcp .proxy addr, true⟩ ∈ past := by
    intro service hservice
    obtain ⟨proxy, hproxy, _⟩ := Option.map_eq_some_iff.mp hservice
    exact ⟨_, hlistens.proxy proxy hproxy⟩
  have hproxyNew : ∀ service ∈ cfg.proxyService, service ∉ cfg.early := by
    intro service hservice
    obtain ⟨proxy, _, rfl⟩ := Option.map_eq_some_iff.mp hservice
    simp [early, healthService]
  refine .bind (conforms_spawnListening hlistens hup hjoined hproxyBound hproxyNew
    fun service hservice => by simp_all [late]) ?_
  rintro res past ⟨hlistens, hjoined, up, hup, hproxies⟩
  cases res with
  | error err => exact .pure ⟨up, hup, fun h => absurd h (by simp)⟩
  | ok u =>
    obtain rfl := hproxies rfl
    have hapiBound : ∀ service ∈ cfg.apiService, ∃ addr, ⟨.bindTcp .api addr, true⟩ ∈ past := by
      intro service hservice
      obtain ⟨api, hapi, _⟩ := Option.map_eq_some_iff.mp hservice
      exact ⟨_, hlistens.api api hapi⟩
    have hapiNew : ∀ service ∈ cfg.apiService, service ∉ cfg.early ++ cfg.proxyService.toList := by
      intro service hservice
      obtain ⟨api, _, rfl⟩ := Option.map_eq_some_iff.mp hservice
      simp [early, healthService, proxyService]
    refine .bind (conforms_spawnListening hlistens hup hjoined hapiBound hapiNew
      fun service hservice => by simp_all [late]) ?_
    rintro res past ⟨hlistens, hjoined, up, hup, hapis⟩
    cases res with
    | error err => exact .pure ⟨up, hup, fun h => absurd h (by simp)⟩
    | ok u =>
      obtain rfl := hapis rfl
      refine conforms_spawn hlistens hup
        (by simp [early, healthService, proxyService, apiService])
        (.inr ⟨by simp [late], hjoined⟩) fun hlistens hup => ?_
      refine conforms_spawn hlistens hup
        (by simp [early, healthService, proxyService, apiService])
        (.inr ⟨by simp [late], hjoined.append _⟩) fun _ hup => ?_
      exact .pure ⟨_, hup, fun _ => by simp [late]⟩

/-- Services that run are told to stop one after another. -/
lemma conforms_abortAll {services : List Service} (hdown : Down up down past)
    (hnodup : (down ++ services).Nodup) (hall : ∀ service ∈ services, service ∈ up) :
    Conforms (cfg.MayDo hmac) (fun past _ => Down up (down ++ services) past) past
      (abortAll services) := by
  induction services generalizing down past with
  | nil => exact .pure (by simpa using hdown)
  | cons service services ih =>
    have hnew : service ∉ down := by
      intro hmem
      have hdisj := (List.nodup_append.mp hnodup).2.2
      exact hdisj service hmem service List.mem_cons_self rfl
    have hmay : cfg.MayDo hmac past (.abort service) :=
      ⟨hdown.left, hdown.spawned ▸ hall service List.mem_cons_self, hdown.stopped ▸ hnew⟩
    refine .call_bind hmay fun _ => ?_
    have happend : down ++ service :: services = down ++ [service] ++ services := by simp
    rw [happend] at hnodup ⊢
    exact ih (hdown.abort service) hnodup fun s hs => hall s (List.mem_cons_of_mem _ hs)

/-- The services told to stop are those that run. -/
lemma mem_goesDown : service ∈ cfg.goesDown ↔ service ∈ cfg.early ++ cfg.late := by
  simp only [goesDown, early, late, List.mem_append, List.mem_cons, List.not_mem_nil, or_false]
  tauto

/-- No service is told to stop twice. -/
lemma nodup_goesDown : cfg.goesDown.Nodup := by
  unfold goesDown healthService proxyService apiService
  cases cfg.backendPort <;> cases cfg.proxy <;> cases cfg.api <;> simp

/-- First it leaves, then everything is stopped, then it says goodbye. -/
lemma conforms_shutDown (hup : Up (cfg.early ++ cfg.late) past)
    (hsignal : ⟨.shutdownSignal, true⟩ ∈ past) :
    Conforms (cfg.MayDo hmac)
      (fun past _ => ∃ told, past.getLast? = some ⟨.announceLeave, told⟩) past cfg.shutDown := by
  refine .call_bind ⟨hsignal, hup.stopped⟩ fun _ => ?_
  refine .bind (conforms_abortAll hup.leave nodup_goesDown fun _ hs => mem_goesDown.mp hs) ?_
  intro _ past hdown
  refine .call_bind ⟨hdown.left, fun service hservice => ?_⟩ fun told => .pure ⟨told, by simp⟩
  rw [hdown.spawned] at hservice
  rw [hdown.stopped]
  exact mem_goesDown.mpr hservice

/-! ## The whole of it -/

lemma ends_error {err : StartError} {key : ClusterKey} (hkey : cfg.check hmac = .ok key)
    (hup : Up up past) : cfg.Ends hmac past (.error err) :=
  ⟨hup.stopped, hup.staying, fun hcheck => absurd (hkey.symm.trans hcheck) (by simp)⟩

/-- `execute` does its parts in order and ends at the first that fails. -/
lemma conforms_execute : Conforms (cfg.MayDo hmac) (cfg.Ends hmac) [] (cfg.execute hmac) := by
  unfold execute
  cases hkey : cfg.check hmac with
  | error err => exact .pure ⟨rfl, List.not_mem_nil, fun _ => rfl⟩
  | ok key =>
    refine .bind (conforms_bindCluster hkey) ?_
    rintro res past ⟨hup, hbound⟩
    cases res with
    | error err => exact .pure (ends_error hkey hup)
    | ok bound =>
      refine .bind (conforms_bindOthers hkey hup (hbound bound rfl)) ?_
      rintro res past ⟨hup, hlistens⟩
      cases res with
      | error err => exact .pure (ends_error hkey hup)
      | ok u =>
        obtain ⟨hbound, hlistens⟩ := hlistens rfl
        refine .call_bind ⟨hlistens, hup.spawned, hkey, rfl, bound, hbound.addr, rfl⟩ fun id => ?_
        refine .bind (conforms_spawnEarly (hlistens.append _) (hup.quiet rfl id)) ?_
        rintro _ past ⟨hup, hlistens⟩
        refine .bind (conforms_joinSeeds hlistens hup) ?_
        rintro joined past ⟨hup, hlistens, hjoined⟩
        cases joined with
        | false => exact .pure (ends_error hkey hup)
        | true =>
          refine .bind (conforms_spawnLate hlistens hup (hjoined rfl)) ?_
          rintro res past ⟨up, hup, hall⟩
          cases res with
          | error err => exact .pure (ends_error hkey hup)
          | ok u =>
            obtain rfl := hall rfl
            refine .call_bind hup.spawned fun signal => ?_
            have hup := hup.quiet (o := .shutdownSignal) rfl signal
            cases signal with
            | false => exact .pure (ends_error hkey hup)
            | true => exact .bind (conforms_shutDown hup (by simp)) fun _ past hlast => .pure hlast

end StartConfig

variable {hmac : Bytes → ClusterKey} {cfg : StartConfig} {args : StartArgs} {es : StartLog}
  {out : Except StartError Unit}

/-- Whatever `dalila start` is given and whatever the system answers: it binds nothing before its
checks are over, starts nothing before all that was asked for is bound, detects and syncs only
once it has joined, leaves only when it is told to shut down and with everything running, stops
nothing before it has left and nothing twice, and says goodbye only when nothing is left running.
If it fails, nothing has been stopped and it has not left. -/
theorem life_in_order (h : Transcript (cfg.execute hmac) es out) :
    (∀ past o r rest, es = past ++ ⟨o, r⟩ :: rest → cfg.MayDo hmac past o) ∧
      cfg.Ends hmac es out :=
  h.conforms StartConfig.conforms_execute

/-- A node with a key, tags, a proxy and an API joins through a seed, and leaves again. -/
theorem life_in_order_joined : ∃ (cfg : StartConfig) (past rest : StartLog) (seed : SocketAddr),
    Transcript (cfg.execute fun _ => ⟨fun _ => Vector.replicate _ 0⟩)
        (past ++ ⟨.spawn .detector, ()⟩ :: rest) (.ok ()) ∧
      (cfg.Listens past ∧ cfg.proxy.isSome ∧ cfg.api.isSome) ∧
      (cfg.Joined past ∧ cfg.seeds = [seed]) ∧ .detector ∉ spawned past ∧
      cfg.Ends (fun _ => ⟨fun _ => Vector.replicate _ 0⟩) (past ++ ⟨.spawn .detector, ()⟩ :: rest)
        (.ok ()) := by
  let hmac : Bytes → ClusterKey := fun _ => ⟨fun _ => Vector.replicate _ 0⟩
  let seed : SocketAddr := ⟨.v4 #v[10, 0, 0, 9], 7946⟩
  let own : SocketAddr := ⟨.v4 #v[10, 0, 0, 1], 7946⟩
  let bound : SocketAddr := ⟨.v4 #v[0, 0, 0, 0], 7946⟩
  let clients : SocketAddr := ⟨.v4 #v[0, 0, 0, 0], 80⟩
  let readers : SocketAddr := ⟨.v4 #v[127, 0, 0, 1], 7900⟩
  let cfg : StartConfig :=
    { bind := bound, advertise := some own, seeds := [seed],
      key := some "thirty-two bytes or more of secret", tags := ["web"], backendPort := some 8080,
      proxy := some ⟨clients, 8080, some "web"⟩, api := some ⟨readers, 8080⟩ }
  let past : StartLog :=
    [⟨.bindTcp .cluster bound, true⟩, ⟨.localAddr .cluster, some bound⟩, ⟨.bindUdp bound, true⟩,
      ⟨.bindTcp .proxy clients, true⟩, ⟨.bindTcp .api readers, true⟩,
      ⟨.newNode (hmac []) own ["web"], ⟨Vector.replicate 16 1⟩⟩, ⟨.spawn .accept, ()⟩,
      ⟨.spawn .udp, ()⟩, ⟨.spawn (.health 8080), ()⟩, ⟨.join [seed], true⟩,
      ⟨.localAddr .proxy, some clients⟩, ⟨.spawn (.proxy 8080 (some "web")), ()⟩,
      ⟨.localAddr .api, some readers⟩, ⟨.spawn (.api 8080), ()⟩]
  let rest : StartLog :=
    [⟨.spawn .sync, ()⟩, ⟨.shutdownSignal, true⟩, ⟨.leave, ()⟩, ⟨.abort .accept, ()⟩,
      ⟨.abort .udp, ()⟩, ⟨.abort .detector, ()⟩, ⟨.abort .sync, ()⟩,
      ⟨.abort (.proxy 8080 (some "web")), ()⟩, ⟨.abort (.api 8080), ()⟩,
      ⟨.abort (.health 8080), ()⟩, ⟨.announceLeave, 1⟩]
  have hlife : Transcript (cfg.execute hmac) (past ++ ⟨.spawn .detector, ()⟩ :: rest) (.ok ()) :=
    .step <| .step <| .step <| .step <| .step <| .step <| .step <| .step <| .step <| .step <|
      .step <| .step <| .step <| .step <| .step <| .step <| .step <| .step <| .step <| .step <|
      .step <| .step <| .step <| .step <| .step <| .step <| .ret _
  obtain ⟨hmay, hends⟩ := life_in_order hlife
  obtain ⟨hlistens, hnew, hasked, _⟩ := hmay past (.spawn .detector) () rest rfl
  have hlate : Service.detector ∉ cfg.early := by decide
  have hjoined : cfg.Joined past := hasked.resolve_left hlate |>.2
  exact ⟨cfg, past, rest, seed, hlife, ⟨hlistens, rfl, rfl⟩, ⟨hjoined, rfl⟩, hnew, hends⟩

/-! ## What is started -/

/-- The port of the app a service has to do with. -/
def Service.backendPort : Service → Option UInt16
  | .health backendPort => some backendPort
  | .proxy backendPort _ => some backendPort
  | .api backendPort => some backendPort
  | _ => none

namespace StartConfig

variable {key : ClusterKey}

end StartConfig

end Dalila
