import Dalila.Knowledge

/-!
# Where the tasks of a process come from

After a step, every task was there before, moved on by one operation, or has just been
started; and what has just been started has one of a few causes.
-/

namespace Dalila

/-! ## One task after another -/

/-- What a task that returned hands over to, and where that runs. -/
inductive Kind.Next (slot : Slot) (free : ℕ) : (kind : Kind) → kind.Out → Slot → Kind → Prop where
  | relay (src : SocketAddr) (body : UdpBody) (relay : Relay) :
      Next slot free (.datagram src body) (some relay) (.spawned free) (.relay relay)
  | announcing : Next slot free .leaving () slot .announcing
  | probing (order rest : List NodeId) (target : Member) :
      Next slot free (.choosing order) (some target, rest) slot (.probing target)
  | nobody (order rest : List NodeId) :
      Next slot free (.choosing order) (none, rest) slot .sweeping
  | judging (target : Member) (acked : Bool) :
      Next slot free (.probing target) acked slot (.judging target acked)
  | sweeping (target : Member) (acked : Bool) :
      Next slot free (.judging target acked) () slot .sweeping
  | reaping : Next slot free .sweeping () slot .reaping

namespace Process

variable {p : Process} {slot slot' : Slot} {free : ℕ} {kind : Kind} {out : kind.Out}
  {task : Task}

lemma tasks_set_some {task₀ : Option Task} (h : (p.set slot task₀).tasks slot' = some task) :
    slot' = slot ∧ task₀ = some task ∨ slot' ≠ slot ∧ p.tasks slot' = some task := by
  rw [tasks_set] at h
  by_cases hslot : slot' = slot
  · rw [if_pos hslot] at h
    exact .inl ⟨hslot, h⟩
  · rw [if_neg hslot] at h
    exact .inr ⟨hslot, h⟩

/-- A process that goes on after a task returned: its other tasks stay, and that one is
followed by what its kind says. -/
lemma tasks_finish (hrun : (p.finish slot free kind out).stopped = false)
    (h : (p.finish slot free kind out).tasks slot' = some task) :
    slot' ≠ slot ∧ p.tasks slot' = some task ∨
      ∃ kind', kind.Next slot free out slot' kind' ∧ task = Task.start p.node kind' := by
  have hdrop : (p.set slot none).tasks slot' = some task →
      slot' ≠ slot ∧ p.tasks slot' = some task := by
    intro h
    rcases tasks_set_some h with ⟨_, h⟩ | h
    · exact absurd h (by simp)
    · exact h
  have hnext : ∀ kind', (p.set slot (some (Task.start p.node kind'))).tasks slot' = some task →
      slot' ≠ slot ∧ p.tasks slot' = some task ∨
        slot' = slot ∧ task = Task.start p.node kind' := by
    intro kind' h
    rcases tasks_set_some h with ⟨hslot, h⟩ | h
    · exact .inr ⟨hslot, (Option.some.inj h).symm⟩
    · exact .inl h
  -- a relay gets a slot of its own; any other task is followed, if at all, in the slot it had
  cases kind with
  | datagram src body =>
    cases out with
    | none => exact .inl (hdrop h)
    | some relay =>
      rcases tasks_set_some h with ⟨rfl, heq⟩ | ⟨_, heq⟩
      · exact .inr ⟨.relay relay, .relay src body relay, (Option.some.inj heq).symm⟩
      · exact .inl (hdrop heq)
  | relay _ => exact .inl (hdrop h)
  | serve _ _ => exact .inl (hdrop h)
  | sync => exact .inl (hdrop h)
  | health _ => exact .inl (hdrop h)
  | join seeds =>
    cases out with
    | true => exact .inl (hdrop h)
    | false => exact absurd hrun (by simp [finish])
  | leaving =>
    rcases hnext .announcing h with heq | ⟨rfl, heq⟩
    · exact .inl heq
    · exact .inr ⟨.announcing, .announcing, heq⟩
  | announcing => exact absurd hrun (by simp [finish])
  | choosing order =>
    obtain ⟨target, rest⟩ := out
    cases target with
    | some target =>
      rcases hnext (.probing target) h with heq | ⟨rfl, heq⟩
      · exact .inl heq
      · exact .inr ⟨.probing target, .probing order rest target, heq⟩
    | none =>
      rcases hnext .sweeping h with heq | ⟨rfl, heq⟩
      · exact .inl heq
      · exact .inr ⟨.sweeping, .nobody order rest, heq⟩
  | probing target =>
    rcases hnext (.judging target out) h with heq | ⟨rfl, heq⟩
    · exact .inl heq
    · exact .inr ⟨.judging target out, .judging target out, heq⟩
  | judging target acked =>
    rcases hnext .sweeping h with heq | ⟨rfl, heq⟩
    · exact .inl heq
    · exact .inr ⟨.sweeping, .sweeping target acked, heq⟩
  | sweeping =>
    rcases hnext .reaping h with heq | ⟨rfl, heq⟩
    · exact .inl heq
    · exact .inr ⟨.reaping, .reaping, heq⟩
  | reaping => exact .inl (hdrop h)

end Process

/-! ## After one step -/

/-- How a running process came by the task it has in a slot. -/
inductive Task.Arises (c : Cluster) (l : Label) (q : NodeId) (p' : Process) (slot : Slot) :
    Task → Prop where
  /-- It was there. -/
  | kept (p : Process) (task : Task) (hp : c.procs q = some p) (hrun : p.stopped = false)
      (htask : p.tasks slot = some task) (hl : ∀ kind o r, l ≠ .op q slot kind o r)
      (hl' : ∀ kind out, l ≠ .finish q slot kind out) : Arises c l q p' slot task
  /-- It moved on by one operation. -/
  | moved (p : Process) (kind : Kind) (o : Op) (next : o.Res → Prog kind.Out) (r : o.Res)
      (net' : List Packet) (hp : c.procs q = some p) (hrun : p.stopped = false)
      (htask : p.tasks slot = some ⟨kind, .step o next⟩) (hl : l = .op q slot kind o r)
      (hop : o.Run p.node c.clock ⟨p.shared, c.net⟩ r ⟨p'.shared, net'⟩) :
      Arises c l q p' slot ⟨kind, next r⟩
  /-- It is what comes after one that returned. -/
  | followed (p : Process) (slot₀ : Slot) (kind₀ : Kind) (out : kind₀.Out) (free : ℕ) (kind : Kind)
      (hp : c.procs q = some p) (hrun : p.stopped = false)
      (htask : p.tasks slot₀ = some ⟨kind₀, .ret out⟩) (hl : l = .finish q slot₀ kind₀ out)
      (hnext : kind₀.Next slot₀ free out slot kind) : Arises c l q p' slot (.start p'.node kind)
  /-- A loop came round. -/
  | begun (p : Process) (kind : Kind) (hp : c.procs q = some p) (hrun : p.stopped = false)
      (haborted : p.aborted = false) (hl : l = .begins q slot kind) (hbegins : p.Begins slot kind) :
      Arises c l q p' slot (.start p'.node kind)
  | received (p : Process) (src : SocketAddr) (body : UdpBody) (hp : c.procs q = some p)
      (hrun : p.stopped = false) (hslot : slot = .udp) (hl : l = .receive q src body)
      (hnet : .udp src p.node.addr body ∈ c.net) :
      Arises c l q p' slot (.start p'.node (.datagram src body))
  | accepted (p : Process) (n : ℕ) (conn : Conn) (body : TcpBody) (hp : c.procs q = some p)
      (hrun : p.stopped = false) (hslot : slot = .spawned n) (hl : l = .accept q conn body)
      (hnet : .request conn body ∈ c.net) : Arises c l q p' slot (.start p'.node (.serve conn body))
  | joining (seeds : List SocketAddr) (hslot : slot = .main) (hl : l = .start p'.node seeds) :
      Arises c l q p' slot (.start p'.node (.join seeds))

lemma Task.arises {c c' : Cluster} {l : Label} (h : Step c l c') {q : NodeId} {p' : Process}
    (hp' : c'.procs q = some p') (hrun : p'.stopped = false) {slot : Slot} {task : Task}
    (htask : p'.tasks slot = some task) : Task.Arises c l q p' slot task := by
  -- only steps of the process itself touch its tasks
  by_cases hq : l.actor = some q
  · cases h with
    | tick | lose | duplicate | query => exact absurd hq (by simp [Label.actor])
    | start node seeds hnew hmay =>
      obtain rfl := Option.some.inj hq
      obtain rfl := Cluster.eq_of_procs_setProc hp'
      simp only [Process.new, Option.ite_none_right_eq_some] at htask
      obtain ⟨⟨rfl, _⟩, hjoin⟩ := htask
      obtain rfl := Option.some.inj hjoin
      exact .joining seeds rfl rfl
    | begins q₀ p₀ slot₀ kind hp₀ hstopped haborted hidle hbegins =>
      obtain rfl := Option.some.inj hq
      obtain rfl := Cluster.eq_of_procs_setProc hp'
      rcases Process.tasks_set_some htask with ⟨rfl, heq⟩ | ⟨_, htask⟩
      · obtain rfl := Option.some.inj heq
        exact .begun p₀ kind hp₀ hstopped haborted rfl hbegins
      · exact .kept p₀ task hp₀ hstopped htask (by simp) (by simp)
    | receive q₀ p₀ src body hp₀ hstopped haborted hidle hnet =>
      obtain rfl := Option.some.inj hq
      obtain rfl := Cluster.eq_of_procs_setProc (c := c) hp'
      rcases Process.tasks_set_some htask with ⟨rfl, heq⟩ | ⟨_, htask⟩
      · obtain rfl := Option.some.inj heq
        exact .received p₀ src body hp₀ hstopped rfl rfl hnet
      · exact .kept p₀ task hp₀ hstopped htask (by simp) (by simp)
    | accept q₀ p₀ n conn body hp₀ hstopped haborted hidle hserver hnet =>
      obtain rfl := Option.some.inj hq
      obtain rfl := Cluster.eq_of_procs_setProc (c := c) hp'
      rcases Process.tasks_set_some htask with ⟨rfl, heq⟩ | ⟨_, htask⟩
      · obtain rfl := Option.some.inj heq
        exact .accepted p₀ n conn body hp₀ hstopped rfl rfl hnet
      · exact .kept p₀ task hp₀ hstopped htask (by simp) (by simp)
    | op q₀ p₀ slot₀ kind o next r shared net hp₀ hstopped htask₀ hop =>
      obtain rfl := Option.some.inj hq
      obtain rfl := Cluster.eq_of_procs_setProc (c := c) hp'
      rcases Process.tasks_set_some htask with ⟨rfl, heq⟩ | ⟨hslot, htask⟩
      · obtain rfl := Option.some.inj heq
        exact .moved p₀ kind o next r net hp₀ hstopped htask₀ rfl hop
      · refine .kept p₀ task hp₀ hstopped htask ?_ (by simp)
        intro kind' o' r' hl
        injection hl with _ hslot'
        exact hslot hslot'.symm
    | finish q₀ p₀ slot₀ kind out free hp₀ hstopped htask₀ hfree =>
      obtain rfl := Option.some.inj hq
      obtain rfl := Cluster.eq_of_procs_setProc hp'
      rcases Process.tasks_finish hrun htask with ⟨hslot, htask⟩ | ⟨kind', hnext, rfl⟩
      · refine .kept p₀ task hp₀ hstopped htask (by simp) ?_
        intro kind' out' hl
        injection hl with _ hslot'
        exact hslot hslot'.symm
      · rw [← (p₀.finish_keeps slot₀ free kind out).1]
        exact .followed p₀ slot₀ kind out free kind' hp₀ hstopped htask₀ rfl hnext
    | cancel q₀ p₀ slot₀ hp₀ hstopped =>
      obtain rfl := Option.some.inj hq
      obtain rfl := Cluster.eq_of_procs_setProc hp'
      rcases Process.tasks_set_some htask with ⟨_, htask⟩ | ⟨_, htask⟩
      · exact absurd htask (by simp)
      · exact .kept p₀ task hp₀ hstopped htask (by simp) (by simp)
    | stop q₀ p₀ hp₀ =>
      obtain rfl := Option.some.inj hq
      obtain rfl := Cluster.eq_of_procs_setProc hp'
      exact absurd hrun (by simp)
  · -- a step of another process
    rw [h.procs_eq hq] at hp'
    refine .kept p' task hp' hrun htask ?_ ?_
    · rintro kind o r rfl
      exact hq rfl
    · rintro kind out rfl
      exact hq rfl

end Dalila
