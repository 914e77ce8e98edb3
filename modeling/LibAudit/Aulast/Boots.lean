import LibAudit.Aulast.Sessions
import Mathlib.Data.List.Induction

/-!
# Shutdowns and boots

`process_shutdown` and `process_bootup` take a node with a name for the record of a boot.  The nodes of
sessions have names too, those of the accounts.

The record of a boot is always the first node, so a shutdown finds it if there is one (`Kept`).  If there
is none, the shutdown closes the first session that has a name.  A boot reports every session that has a
name as crashed.  `asDescribed_iff` says that nothing else goes wrong.
-/

namespace LibAudit.Aulast

open List

variable {opts : Options} {es : List Event} {e : Event} {s : State}

/-- The node was made for a boot. -/
def isBoot (es : List Event) (n : Node) : Bool := bootAt es n.origin

/-- A node that is closed by an event, and why. -/
def ended (e : Event) (status : Status) (n : Node) : Node :=
  { n with userEndProof := e.serial, status := status, stop := e.time }

/-- A shutdown closes the record of the boot, if it is open, and no session. -/
structure ShutsDown (opts : Options) (es : List Event) (e : Event) : Prop where
  nodes : (run opts (es ++ [e])).list.nodes = (run opts es).list.nodes.filter (!isBoot es ·)
  reports : (run opts (es ++ [e])).reports = (run opts es).reports ++
    (((run opts es).list.nodes.filter (isBoot es)).map (ended e .logOut)).filter (shown opts)

/-- A boot reports the record of the last one as crashed, and that everyone went down. -/
def BootsUp (opts : Options) (es : List Event) (e : Event) : Prop :=
  (run opts (es ++ [e])).reports = (run opts es).reports ++
    ((((run opts es).list.nodes.filter (isBoot es)).map (ended e .crash)).filter (shown opts) ++
      (((run opts es).list.nodes.filter (!isBoot es ·)).map (ended e .down)).filter (shown opts))

/-- The record of a boot is open. -/
def BootOpen (opts : Options) (es : List Event) : Prop :=
  ∃ n ∈ (run opts es).list.nodes, isBoot es n = true

/-- Shutdowns, and boots that find an open record, do what they should. -/
def AsDescribed (opts : Options) (es : List Event) : Prop :=
  ∀ before e, before ++ [e] <+: es →
    (e.kind = .systemShutdown → ShutsDown opts before e) ∧
      (e.kind = .systemBoot → BootOpen opts before → BootsUp opts before e)

/-! ## The record of a boot comes first -/

/-- What matters about a node: the event, whether it has a name, and whether it has crashed. -/
def Node.key (n : Node) : Nat × Bool × Bool := (n.origin, n.name.isSome, n.status = .crash)

theorem map_key_modify {l : List Node} {f : Node → Node} (i : Nat)
    (h : ∀ n ∈ l, (f n).key = n.key) : (l.modify i f).map Node.key = l.map Node.key := by
  induction l generalizing i with
  | nil => cases i <;> rfl
  | cons n l ih =>
    grind

theorem nodes_append_sublist (l : Chain Node) (n : Node) :
    (l.append n).nodes.Sublist (l.nodes ++ [n]) := by
  rw [Chain.append]
  grind

theorem deleteCur_sublist {p : Node → Bool} {l l' : Chain Node} (h : l.find p = some l') :
    l'.deleteCur.nodes.Sublist l.nodes := by
  obtain ⟨i, hi, -, -, rfl⟩ := Chain.find_eq_some h
  rw [(Chain.deleteCur_mk l.nodes [] hi).1]
  exact eraseIdx_sublist _ _

theorem closeCur_sublist {p : Node → Bool} {l : Chain Node} (f : Node → Node)
    (h : s.list.find p = some l) : (closeCur opts f l s).list.nodes.Sublist s.list.nodes ∧
      (closeCur opts f l s).index = s.index := by
  have hsub := deleteCur_sublist h
  obtain ⟨i, hi, -, -, rfl⟩ := Chain.find_eq_some h
  rw [closeCur_eq opts f s hi]
  exact ⟨hsub, rfl⟩

/-- **An event other than a boot** removes nodes, and adds one at the end. -/
theorem keys_handle (h : ∀ n ∈ s.list.nodes, n.status ≠ .crash) (hkind : e.kind ≠ .systemBoot) :
    ∃ named, ((handle opts s e).list.nodes.map Node.key).Sublist
      (s.list.nodes.map Node.key ++ [(s.index, named, false)]) := by
  have hsub : ∀ {l : List Node}, l.Sublist s.list.nodes → ∃ named, (l.map Node.key).Sublist
      (s.list.nodes.map Node.key ++ [(s.index, named, false)]) := fun hl =>
    ⟨true, (hl.map _).trans (sublist_append_left _ _)⟩
  cases hk : e.kind with
  | login r =>
    have hnew : ∀ s' : State, s'.list.nodes.Sublist s.list.nodes → s'.index = s.index →
        ((s'.list.append (loginNode e r s'.index)).nodes.map Node.key).Sublist
          (s.list.nodes.map Node.key ++ [(s.index, r.acct.isSome, false)]) := fun s' hs' hindex => by
      refine ((nodes_append_sublist _ _).map _).trans ?_
      rw [map_append, hindex]
      exact (hs'.map _).append (.refl _)
    cases hfind : findSession s.list (r.ses.getD (-1)) with
    | none =>
      simp only [handle, hk, createNewSession, hfind]
      split
      · exact hsub (.refl _)
      · split
        · exact hsub (.refl _)
        · exact ⟨_, hnew s (.refl _) rfl⟩
    | some l =>
      obtain ⟨hl, hindex⟩ := @closeCur_sublist opts s _ _ (gone e) hfind
      simp only [handle, hk, createNewSession, hfind]
      split
      · exact hsub (.refl _)
      · split
        · exact hsub hl
        · exact ⟨_, hnew _ hl hindex⟩
  | userLogin r =>
    simp only [handle, hk, updateSessionLogin]
    split
    · exact hsub (.refl _)
    · split
      · rename_i l hfind
        split at hfind
        · split
          · exact hsub (deleteCur_sublist hfind)
          · obtain ⟨i, hi, -, -, rfl⟩ := Chain.find_eq_some hfind
            rw [Chain.update_mk _ _ _ hi, map_key_modify i fun n hn => by
              simp [Node.key, updateStart, h n hn]]
            exact hsub (.refl _)
        · cases hfind
      · split
        · rw [reportSession_eq]
          exact hsub (.refl _)
        · exact hsub (.refl _)
  | userEnd r =>
    simp only [handle, hk, updateSessionLogout]
    split
    · exact hsub (.refl _)
    · split
      · exact hsub (.refl _)
      · split
        · exact hsub (closeCur_sublist _ ‹_›).1
        · exact hsub (deleteCur_sublist ‹_›)
  | systemBoot => exact absurd hk hkind
  | systemShutdown =>
    simp only [handle, hk, processShutdown]
    split
    · exact hsub (closeCur_sublist _ ‹_›).1
    · exact hsub (.refl _)
  | daemonStart kernel =>
    simp only [handle, hk]
    exact hsub (.refl _)
  | other =>
    simp only [handle, hk]
    exact hsub (.refl _)

/-- The record of a boot is the first node and has a name, and no node has crashed. -/
structure Kept (es : List Event) (s : State) : Prop where
  index : s.index = es.length
  first : (s.list.nodes.map Node.key).Pairwise fun _ k => bootAt es k.1 = false
  keys : ∀ k ∈ s.list.nodes.map Node.key,
    k.1 < es.length ∧ (bootAt es k.1 = true → k.2.1 = true) ∧ k.2.2 = false

theorem Kept.alive (h : Kept es s) : ∀ n ∈ s.list.nodes, n.status ≠ .crash := fun _ hn =>
  of_decide_eq_false (h.keys _ (mem_map_of_mem hn)).2.2

theorem Kept.named (h : Kept es s) : ∀ n ∈ s.list.nodes, isBoot es n = true → n.name.isSome = true :=
  fun _ hn => (h.keys _ (mem_map_of_mem hn)).2.1

theorem index_handle (opts : Options) (s : State) (e : Event) : (handle opts s e).index = s.index + 1 :=
  rfl

/-- What a boot does: what has a name has crashed, and the others went down. -/
theorem handle_boot (hkind : e.kind = .systemBoot) (h : ∀ n ∈ s.list.nodes, n.status ≠ .crash) :
    handle opts s e = { s with
      list := Chain.empty.append (bootNode e s.kernel s.index)
      reports := s.reports ++
        (((s.list.nodes.filter (·.name.isSome)).map (ended e .crash)).filter (shown opts) ++
          ((s.list.nodes.filter (·.name.isNone)).map (ended e .down)).filter (shown opts))
      index := s.index + 1 } := by
  have hcrash : (s.list.nodes.filter (·.name.isSome)).map (crashed e) =
      (s.list.nodes.filter (·.name.isSome)).map (ended e .crash) :=
    map_congr_left fun n hn => if_pos (mem_filter.mp hn).2
  have hdown : ((s.list.nodes.map (crashed e)).filter (·.status ≠ .crash)).map (wentDown e) =
      (s.list.nodes.filter (·.name.isNone)).map (ended e .down) := by
    generalize s.list.nodes = nodes at h
    induction nodes with
    | nil => rfl
    | cons n nodes ih =>
      rw [forall_mem_cons] at h
      have ih := ih h.2
      cases hn : n.name with
      | none => simp_all [crashed, wentDown, ended]
      | some name => simp_all [crashed]
  simp only [handle, hkind, processBootup, foldl_report, hcrash, hdown, append_assoc]

/-- **The record of a boot comes first** after any events. -/
theorem kept_run (opts : Options) (es : List Event) : Kept es (run opts es) := by
  induction es using List.reverseRecOn with
  | nil => exact ⟨rfl, List.Pairwise.nil, fun k hk => by cases hk⟩
  | append_singleton es e ih =>
    rw [run_snoc]
    have hindex : (handle opts (run opts es) e).index = (es ++ [e]).length := by
      rw [index_handle, ih.index, length_append, length_singleton]
    by_cases hkind : e.kind = .systemBoot
    · rw [handle_boot hkind ih.alive] at hindex ⊢
      refine ⟨hindex, pairwise_singleton _ _, fun k hk => ?_⟩
      rw [mem_singleton.mp hk, ← hindex]
      exact ⟨Nat.lt_succ_self _, fun _ => rfl, rfl⟩
    · obtain ⟨named, hsub⟩ := @keys_handle opts e _ ih.alive hkind
      have hlast : bootAt (es ++ [e]) (run opts es).index = false := by
        rw [ih.index, bootAt_last, decide_eq_false hkind]
      refine ⟨hindex, List.Pairwise.sublist hsub ?_, fun k hk => ?_⟩
      · rw [pairwise_append]
        refine ⟨?_, pairwise_singleton _ _, fun _ _ k hk => ?_⟩
        · refine ih.first.imp_of_mem fun _ hk hboot => ?_
          rw [bootAt_snoc (ih.keys _ hk).1, hboot]
        · rw [mem_singleton.mp hk, hlast]
      · rcases mem_append.mp (hsub.subset hk) with hk | hk
        · obtain ⟨hlt, hnamed, hcrash⟩ := ih.keys k hk
          rw [bootAt_snoc hlt, length_append]
          exact ⟨Nat.lt_add_right _ hlt, hnamed, hcrash⟩
        · rw [mem_singleton.mp hk, ← hindex]
          refine ⟨Nat.lt_succ_self _, fun h => ?_, rfl⟩
          rw [hlast] at h
          cases h

/-! ## One shutdown, one boot -/

/-- No session is in the way of this event. -/
def Clear (opts : Options) (es : List Event) (e : Event) : Prop :=
  (e.kind = .systemShutdown → BootOpen opts es ∨ ∀ n ∈ (run opts es).list.nodes, n.name = none) ∧
    (e.kind = .systemBoot → BootOpen opts es → ∀ n ∈ (run opts es).list.nodes,
      isBoot es n = false → shown opts n = true → n.name = none)

/-- If the record of a boot is open, it is the first node and the only one of its kind. -/
theorem Kept.nodes_eq (h : Kept es s) (hboot : ∃ n ∈ s.list.nodes, isBoot es n = true) :
    ∃ n rest, s.list.nodes = n :: rest ∧ isBoot es n = true ∧ ∀ m ∈ rest, isBoot es m = false := by
  obtain ⟨b, hb, hboot⟩ := hboot
  have hfirst := pairwise_map.mp h.first
  cases hnodes : s.list.nodes with
  | nil =>
    rw [hnodes] at hb
    cases hb
  | cons n rest =>
    rw [hnodes] at hb hfirst
    have hrest := (pairwise_cons.mp hfirst).1
    refine ⟨n, rest, rfl, ?_, hrest⟩
    rcases mem_cons.mp hb with rfl | hb
    · exact hboot
    · rw [isBoot, show bootAt es b.origin = false from hrest b hb] at hboot
      cases hboot

theorem filter_boot {n : Node} {rest : List Node} (hn : isBoot es n = true)
    (hrest : ∀ m ∈ rest, isBoot es m = false) :
    (n :: rest).filter (isBoot es) = [n] ∧ (n :: rest).filter (!isBoot es ·) = rest := by simp_all

theorem shutsDown_iff (hkind : e.kind = .systemShutdown) : ShutsDown opts es e ↔
    (BootOpen opts es ∨ ∀ n ∈ (run opts es).list.nodes, n.name = none) := by
  have hkept := kept_run opts es
  have hrun : run opts (es ++ [e]) = { processShutdown opts e (run opts es) with
      index := (run opts es).index + 1 } := by
    rw [run_snoc, handle, hkind]
  cases hfind : (run opts es).list.find (·.name.isSome) with
  | none =>
    have hnone := Chain.find_eq_none hfind
    have hnot : ∀ n ∈ (run opts es).list.nodes, isBoot es n = false := fun n hn =>
      Bool.eq_false_iff.mpr fun hboot => by simpa [hnone n hn] using hkept.named n hn hboot
    have hboots : (run opts es).list.nodes.filter (isBoot es) = [] :=
      filter_eq_nil_iff.mpr fun n hn => by simp [hnot n hn]
    rw [processShutdown, hfind] at hrun
    refine iff_of_true ⟨?_, ?_⟩ (.inr fun n hn => by simpa using hnone n hn)
    · rw [hrun, filter_eq_self.mpr fun n hn => by simp [hnot n hn]]
    · simp [hrun, hboots]
  | some l =>
    obtain ⟨i, hi, hidx, hnamed, rfl⟩ := Chain.find_eq_some hfind
    rw [processShutdown, hfind] at hrun
    dsimp only at hrun
    rw [closeCur_eq opts (updateLogout e) _ hi] at hrun
    have hnodes := (Chain.deleteCur_mk (run opts es).list.nodes [] hi).1
    by_cases hopen : BootOpen opts es
    · -- the first node is the record of the boot, and it has a name
      obtain ⟨n, rest, hlist, hn, hrest⟩ := hkept.nodes_eq hopen
      obtain rfl : i = 0 := by
        rw [hlist, findIdx?_cons, hkept.named n (hlist ▸ mem_cons_self) hn] at hidx
        exact (Option.some.inj hidx).symm
      obtain ⟨hboots, hothers⟩ := filter_boot hn hrest
      refine iff_of_true ⟨?_, ?_⟩ (.inl hopen)
      · rw [hlist, hothers, hrun]
        rw [hlist] at hnodes
        simpa [hlist] using hnodes
      · rw [hlist, hboots, hrun]
        simp only [hlist]
        rfl
    · refine iff_of_false (fun h => ?_) (not_or.mpr ⟨hopen, fun hall => ?_⟩)
      · have hlen := congrArg List.length h.nodes
        rw [filter_eq_self.mpr fun n hn => by
          rw [Bool.not_eq_true', Bool.eq_false_iff]; exact fun hb => hopen ⟨n, hn, hb⟩, hrun] at hlen
        simp only [hnodes, length_eraseIdx_of_lt hi] at hlen
        omega
      · rw [hall _ (getElem_mem hi)] at hnamed
        cases hnamed

/-- The nodes that are printed when those with `p` are closed. -/
theorem filter_ended (status : Status) (p : Node → Bool) (nodes : List Node) :
    ((nodes.filter p).map (ended e status)).filter (shown opts) =
      (nodes.filter fun n => shown opts n && p n).map (ended e status) := by
  rw [filter_map, filter_filter]
  rfl

theorem bootsUp_iff (hkind : e.kind = .systemBoot) : BootsUp opts es e ↔
    ∀ n ∈ (run opts es).list.nodes, isBoot es n = false → shown opts n = true → n.name = none := by
  have hkept := kept_run opts es
  rw [BootsUp, run_snoc, handle_boot hkind hkept.alive, append_cancel_left_eq]
  simp only [filter_ended]
  constructor
  · intro heq n hn hboot hshown
    by_contra hname
    have hmem : ended e .crash n ∈ ((run opts es).list.nodes.filter fun n =>
        shown opts n && n.name.isSome).map (ended e .crash) :=
      mem_map_of_mem (mem_filter.mpr ⟨hn, by simp [hshown, Option.isSome_iff_ne_none, hname]⟩)
    rcases mem_append.mp (heq ▸ mem_append_left _ hmem) with hin | hin
    · -- it is the same node as the record of a boot
      obtain ⟨b, hb, heq⟩ := mem_map.mp hin
      have horigin : b.origin = n.origin := by simpa [ended] using congrArg Node.origin heq
      have hb := (mem_filter.mp hb).2
      rw [isBoot, horigin, ← isBoot, hboot, Bool.and_false] at hb
      cases hb
    · obtain ⟨b, -, heq⟩ := mem_map.mp hin
      cases congrArg Node.status heq
  · intro h
    have hsame : ∀ n ∈ (run opts es).list.nodes, shown opts n = true →
        n.name.isSome = isBoot es n := by
      intro n hn hshown
      cases hboot : isBoot es n with
      | true => exact hkept.named n hn hboot
      | false => rw [h n hn hboot hshown, Option.isSome_none]
    congr 2
    · refine filter_congr fun n hn => ?_
      cases hshown : shown opts n with
      | true => rw [hsame n hn hshown]
      | false => rfl
    · refine filter_congr fun n hn => ?_
      grind

/-- **Shutdowns and boots do what they should exactly if no session that has a name is in the way**: none
is open at a shutdown without the record of a boot, and none that is printed at a boot with one. -/
theorem asDescribed_iff (opts : Options) (es : List Event) :
    AsDescribed opts es ↔ ∀ before e, before ++ [e] <+: es → Clear opts before e := by
  refine forall₃_congr fun before e _ => and_congr ?_ ?_
  · exact forall_congr' fun hkind => shutsDown_iff hkind
  · exact forall_congr' fun hkind => forall_congr' fun _ => bootsUp_iff hkind

/-- A shutdown closes the session of a user. -/
theorem not_asDescribed_login :
    ¬ AsDescribed .default [⟨.login ⟨some 10, some 1000, some (ascii "root"), some 3⟩, 100, 1⟩,
      ⟨.systemShutdown, 101, 2⟩] := by
  intro h
  have hnodes := ((h [_] _ prefix_rfl).1 rfl).nodes
  revert hnodes
  decide

end LibAudit.Aulast
