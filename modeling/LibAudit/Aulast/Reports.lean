import LibAudit.Aulast.Sessions
import Mathlib.Data.List.Perm.Basic
import Mathlib.Data.List.Induction

/-!
# Each session is reported once

What `aulast` is for, said about the events alone: a session is open from its `LOGIN` record until it is
closed by its `USER_END`, by a `LOGIN` with the same number, or by a boot.  If a `USER_LOGIN` with its
numbers comes in that time it is confirmed, and it is to be reported once; otherwise it is not to be
reported.

A shutdown is not meant to close sessions, but it takes the first node with a name for the record of the
boot, and the nodes of sessions have names.  A session that is lost to a shutdown before it is confirmed
is not reported even if it is confirmed later, and `exactly_once_iff` says that nothing else goes wrong.

`Inv` relates the list and the reports to the events so far.  Each kind of event removes some nodes, may
change others and may add one.  `Change` is the common form, and `Treats` says which nodes an event may
remove, change and add so that the invariant is kept (`Treats.inv`).
-/

namespace LibAudit.Aulast

open List Function
open Option (some mem_toList)

/-! ## Sessions, by the events -/

/-- The numbers of a session. -/
structure Ids where
  pid : Int
  auid : Int
  ses : Int
  deriving DecidableEq

/-- Numbers that were all found. -/
def validIds (pid auid ses : Option Int) : Option Ids :=
  if pid.getD (-1) = -1 ∨ auid.getD (-1) = -1 ∨ ses.getD (-1) = -1 then none
  else some ⟨pid.getD (-1), auid.getD (-1), ses.getD (-1)⟩

/-- The session that an event opens. -/
def Event.opens (e : Event) : Option Ids :=
  match e.kind with
  | .login r => validIds r.pid r.auid r.ses
  | _ => none

/-- The session that an event confirms. -/
def Event.confirms (e : Event) : Option Ids :=
  match e.kind with
  | .userLogin r => if r.result = 0 then validIds r.pid r.uid r.ses else none
  | _ => none

/-- The session that an event ends. -/
def Event.ends (e : Event) : Option Ids :=
  match e.kind with
  | .userEnd r => validIds r.pid r.auid r.ses
  | _ => none

/-- An event that closes a session with these numbers. -/
def Event.Closes (e : Event) (p : Ids) : Prop :=
  e.kind = .systemBoot ∨ (∃ q, e.opens = some q ∧ q.ses = p.ses) ∨ e.ends = some p

/-- The `i`-th event has opened a session with the numbers `p`, which is still open. -/
def OpenIn (es : List Event) (i : Nat) (p : Ids) : Prop :=
  ∃ before e after, es = before ++ e :: after ∧ before.length = i ∧ e.opens = some p ∧
    ∀ x ∈ after, ¬ x.Closes p

/-- The session that the `i`-th event has opened was confirmed while it was open. -/
def ConfirmedIn (es : List Event) (i : Nat) : Prop :=
  ∃ before e after p, es = before ++ e :: after ∧ OpenIn before i p ∧ e.confirms = some p

/-- The node for the `i`-th event was taken for the record of a boot by a shutdown, while its session was
not confirmed. -/
def DroppedIn (es : List Event) (i : Nat) : Prop :=
  ∃ before e after n, es = before ++ e :: after ∧ e.kind = .systemShutdown ∧
    (run .default before).list.nodes.find? (·.name.isSome) = some n ∧ n.origin = i ∧ n.result ≠ 0

/-! ## One more event -/

section Snoc

variable {es : List Event} {e : Event} {i : Nat} {p : Ids}

/-- The last event is the one in question, or it comes behind. -/
theorem snoc_eq_iff {α : Type} {l before after : List α} {a x : α} : l ++ [a] = before ++ x :: after ↔
      (after = [] ∧ before = l ∧ x = a) ∨ ∃ rest, after = rest ++ [a] ∧ l = before ++ x :: rest := by
  constructor
  · intro h
    rcases eq_nil_or_concat after with rfl | ⟨rest, b, rfl⟩
    · simp_all
    · rw [concat_eq_append, ← cons_append, ← append_assoc] at h
      obtain ⟨hl, hx⟩ := append_inj' h rfl
      exact .inr ⟨rest, by rw [concat_eq_append, (List.cons.inj hx).1], hl⟩
  · rintro (⟨rfl, rfl, rfl⟩ | ⟨rest, rfl, rfl⟩)
    · rfl
    · simp

theorem openIn_snoc : OpenIn (es ++ [e]) i p ↔
    (OpenIn es i p ∧ ¬ e.Closes p) ∨ (i = es.length ∧ e.opens = some p) := by
  constructor
  · rintro ⟨before, x, after, heq, hlen, hopens, hafter⟩
    rcases snoc_eq_iff.mp heq with ⟨-, rfl, rfl⟩ | ⟨rest, rfl, rfl⟩
    · exact .inr ⟨hlen.symm, hopens⟩
    · rw [forall_mem_append, forall_mem_singleton] at hafter
      exact .inl ⟨⟨before, x, rest, rfl, hlen, hopens, hafter.1⟩, hafter.2⟩
  · rintro (⟨⟨before, x, after, rfl, hlen, hopens, hafter⟩, hnot⟩ | ⟨rfl, hopens⟩)
    · exact ⟨before, x, after ++ [e], by simp, hlen, hopens,
        forall_mem_append.mpr ⟨hafter, forall_mem_singleton.mpr hnot⟩⟩
    · exact ⟨es, e, [], rfl, rfl, hopens, fun y hy => by simp at hy⟩

theorem exists_snoc {P : List Event → Event → Prop} :
    (∃ before x after, es ++ [e] = before ++ x :: after ∧ P before x) ↔
      (∃ before x after, es = before ++ x :: after ∧ P before x) ∨ P es e := by
  constructor
  · rintro ⟨before, x, after, heq, h⟩
    rcases snoc_eq_iff.mp heq with ⟨-, rfl, rfl⟩ | ⟨rest, rfl, rfl⟩
    · exact .inr h
    · exact .inl ⟨before, x, rest, rfl, h⟩
  · grind

theorem confirmedIn_snoc : ConfirmedIn (es ++ [e]) i ↔
    ConfirmedIn es i ∨ ∃ p, OpenIn es i p ∧ e.confirms = some p := by
  simp only [ConfirmedIn, exists_and_left]
  exact exists_snoc

theorem droppedIn_snoc : DroppedIn (es ++ [e]) i ↔ DroppedIn es i ∨
    (e.kind = .systemShutdown ∧ ∃ n, (run .default es).list.nodes.find? (·.name.isSome) = some n ∧
      n.origin = i ∧ n.result ≠ 0) := by
  simp only [DroppedIn, exists_and_left]
  exact exists_snoc

theorem OpenIn.lt (h : OpenIn es i p) : i < es.length := by
  obtain ⟨before, e, after, rfl, rfl, -⟩ := h
  simp

theorem OpenIn.opens (h : OpenIn es i p) : ∃ e, es[i]? = some e ∧ e.opens = some p := by
  obtain ⟨before, e, after, rfl, rfl, hopens, -⟩ := h
  exact ⟨e, by simp, hopens⟩

/-- The numbers are those of the event. -/
theorem OpenIn.unique {q : Ids} (h : OpenIn es i p) (h' : OpenIn es i q) : p = q := by
  obtain ⟨e, he, hp⟩ := h.opens
  obtain ⟨e', he', hq⟩ := h'.opens
  simp_all

theorem ConfirmedIn.opens (h : ConfirmedIn es i) : ∃ e p, es[i]? = some e ∧ e.opens = some p := by
  obtain ⟨before, x, after, p, rfl, hopen, -⟩ := h
  obtain ⟨e, he, hp⟩ := hopen.opens
  exact ⟨e, p, by rw [List.getElem?_append_left hopen.lt, he], hp⟩

theorem ConfirmedIn.lt (h : ConfirmedIn es i) : i < es.length := by
  obtain ⟨e, -, he, -⟩ := h.opens
  exact (List.getElem?_eq_some_iff.mp he).1

end Snoc

/-! ## The invariant -/

/-- The numbers of a node. -/
def Node.ids (n : Node) : Ids := ⟨n.pid, n.auid, n.session⟩

/-- A node stands for a boot, or for a session that is open. -/
structure NodeOk (es : List Event) (n : Node) : Prop where
  named : n.name.isSome = true
  stands : (bootAt es n.origin = true ∧ n.result = 0) ∨
    (n.start ≠ 0 ∧ OpenIn es n.origin n.ids ∧ (n.result = 0 ↔ ConfirmedIn es n.origin))

/-- The events that have a node or a report. -/
def State.accounted (s : State) : List Nat :=
  s.list.nodes.map (·.origin) ++ s.reports.map (·.origin)

/-- What is known after the events `es`. -/
structure Inv (es : List Event) (s : State) : Prop where
  index : s.index = es.length
  linked : s.list.Linked
  nodes_ok : ∀ n ∈ s.list.nodes, NodeOk es n
  sessions : (s.list.nodes.map (·.session)).Nodup
  nodup : s.accounted.Nodup
  bound : ∀ i ∈ s.accounted, i < es.length
  reported : ∀ r ∈ s.reports, bootAt es r.origin = true ∨ ConfirmedIn es r.origin
  complete : ∀ i, (∃ p, OpenIn es i p) ∨ ConfirmedIn es i → i ∈ s.accounted ∨ DroppedIn es i
  dropped : ∀ i, DroppedIn es i → i < es.length ∧ i ∉ s.accounted

theorem inv_nil : Inv [] (run .default []) where
  index := rfl
  linked := Chain.linked_empty
  nodes_ok := fun n hn => by cases hn
  sessions := nodup_nil
  nodup := nodup_nil
  bound := fun i hi => by cases hi
  reported := fun r hr => by cases hr
  complete := by
    rintro i (⟨p, h⟩ | h)
    · exact absurd h.lt (Nat.not_lt_zero i)
    · exact absurd h.lt (Nat.not_lt_zero i)
  dropped := by
    rintro i ⟨before, e, after, n, heq, -⟩
    simp at heq

section Nodes

variable {es : List Event} {e : Event} {i : Nat} {p : Ids} {n : Node}

theorem shown_default {n : Node} : shown .default n = true ↔ n.result = 0 := by
  simp [shown, Options.default]

theorem bootAt_append (h : bootAt es i = true) : bootAt (es ++ [e]) i = true := by
  obtain ⟨x, hx, -⟩ := bootAt_eq_true_iff.mp h
  rw [bootAt_snoc (List.getElem?_eq_some_iff.mp hx).1, h]

theorem not_opens_of_bootAt {x : Event} (h : bootAt es i = true) (hx : es[i]? = some x)
    (hp : x.opens = some p) : False := by
  obtain ⟨y, hy, hkind⟩ := bootAt_eq_true_iff.mp h
  obtain rfl := some.inj (hx.symm.trans hy)
  rw [Event.opens, hkind] at hp
  cases hp

theorem NodeOk.ids_eq (h : NodeOk es n) (hp : OpenIn es n.origin p) : n.ids = p := by
  rcases h.stands with ⟨hboot, -⟩ | ⟨-, hopen, -⟩
  · obtain ⟨x, hx, hopens⟩ := hp.opens
    exact (not_opens_of_bootAt hboot hx hopens).elim
  · exact hopen.unique hp

theorem NodeOk.result_of_confirmed (h : NodeOk es n) (hconf : ConfirmedIn es n.origin) :
    n.result = 0 := by
  rcases h.stands with ⟨-, hres⟩ | ⟨-, -, hres⟩
  · exact hres
  · exact hres.mpr hconf

/-- A node that is kept after one more event, with a result that goes with it. -/
theorem NodeOk.snoc {n' : Node} (h : NodeOk es n) (hname : n'.name = n.name)
    (hstart : n'.start = n.start) (horigin : n'.origin = n.origin) (hids : n'.ids = n.ids)
    (hopen : ¬ e.Closes n.ids) (hres : n'.result = if e.confirms = some n.ids then 0 else n.result) :
    NodeOk (es ++ [e]) n' := by
  refine ⟨hname ▸ h.named, ?_⟩
  rw [hstart, horigin, hids, hres]
  rcases h.stands with ⟨hboot, hzero⟩ | ⟨hstart, hop, hzero⟩
  · refine .inl ⟨bootAt_append hboot, ?_⟩
    rw [hzero, ite_self]
  · refine .inr ⟨hstart, openIn_snoc.mpr (.inl ⟨hop, hopen⟩), ?_⟩
    rw [confirmedIn_snoc]
    split
    · simp_all
    · rename_i hconf
      rw [hzero]
      refine ⟨.inl, fun hor => hor.resolve_right ?_⟩
      rintro ⟨p, hp, hcp⟩
      rw [hop.unique hp] at hconf
      exact hconf hcp

/-- The node of a session that has just been opened. -/
theorem NodeOk.new (hopens : e.opens = some p) (hids : n.ids = p) (horigin : n.origin = es.length)
    (hname : n.name.isSome = true) (hstart : n.start ≠ 0) (hres : n.result ≠ 0) :
    NodeOk (es ++ [e]) n := by
  refine ⟨hname, .inr ⟨hstart, ?_, iff_of_false hres fun hconf => ?_⟩⟩
  · rw [horigin, hids]
    exact openIn_snoc.mpr (.inr ⟨rfl, hopens⟩)
  · rw [horigin, confirmedIn_snoc] at hconf
    rcases hconf with hconf | ⟨q, hq, -⟩
    · exact absurd hconf.lt (Nat.lt_irrefl _)
    · exact absurd hq.lt (Nat.lt_irrefl _)

end Nodes

/-! ## What one event does -/

/-- Nodes that are not kept are removed, and reported if their result is 0; the others may be changed;
and there may be a new one. -/
structure Change (s s' : State) (keep : Node → Bool) (g f : Node → Node) (new : Option Node) :
    Prop where
  index : s'.index = s.index + 1
  linked : s'.list.Linked
  nodes : s'.list.nodes = (s.list.nodes.filter keep).map g ++ new.toList
  reports : s'.reports = s.reports ++
    ((s.list.nodes.filter fun n => !keep n).map f).filter (shown .default)
  origin_g : ∀ n, (g n).origin = n.origin
  session_g : ∀ n, (g n).session = n.session
  fixed_f : ∀ n, (f n).origin = n.origin ∧ (f n).result = n.result

/-- Only a node that the event closes is removed, or one that is taken for the record of a boot; and what
the event opens is added. -/
structure Treats (es : List Event) (e : Event) (s s' : State) (keep : Node → Bool) (g f : Node → Node)
    (new : Option Node) : Prop extends Change s s' keep g f new where
  kept : ∀ n ∈ s.list.nodes, keep n = true → NodeOk (es ++ [e]) (g n)
  removed : ∀ n ∈ s.list.nodes, keep n = false → e.confirms = none ∧ (e.Closes n.ids ∨
    (e.kind = .systemShutdown ∧ s.list.nodes.find? (·.name.isSome) = some n))
  shutdown : e.kind = .systemShutdown → s = run .default es ∧
    ∀ n, s.list.nodes.find? (·.name.isSome) = some n → keep n = false
  added : ∀ m ∈ new, NodeOk (es ++ [e]) m ∧ m.origin = es.length ∧
    ∀ n ∈ s.list.nodes, keep n = true → n.session ≠ m.session
  opens : e.opens.isSome = true → new.isSome = true

section Change

variable {es : List Event} {e : Event} {s s' : State} {keep : Node → Bool} {g f : Node → Node}
  {new : Option Node} {i : Nat}

theorem Change.mem_accounted (hc : Change s s' keep g f new) :
    i ∈ s'.accounted ↔ (∃ n ∈ s.list.nodes, n.origin = i ∧ (keep n = true ∨ n.result = 0)) ∨
      (∃ m ∈ new, m.origin = i) ∨ i ∈ s.reports.map (·.origin) := by
  simp only [State.accounted, hc.nodes, hc.reports, map_append, map_map, mem_append, filter_map,
    mem_map, mem_filter, comp_apply, hc.origin_g, hc.fixed_f, mem_toList, shown_default,
    Bool.not_eq_true']
  constructor
  · rintro ((⟨n, ⟨hn, hk⟩, rfl⟩ | ⟨m, hm, rfl⟩) | (hr | ⟨n, ⟨⟨hn, -⟩, hz⟩, rfl⟩))
    · exact .inl ⟨n, hn, rfl, .inl hk⟩
    · exact .inr (.inl ⟨m, hm, rfl⟩)
    · exact .inr (.inr hr)
    · exact .inl ⟨n, hn, rfl, .inr hz⟩
  · rintro (⟨n, hn, rfl, hk⟩ | ⟨m, hm, rfl⟩ | hr)
    · cases hkeep : keep n with
      | true => exact .inl (.inl ⟨n, ⟨hn, hkeep⟩, rfl⟩)
      | false =>
        have hz : n.result = 0 := hk.resolve_left (by simp [hkeep])
        exact .inr (.inr ⟨n, ⟨⟨hn, hkeep⟩, hz⟩, rfl⟩)
    · exact .inl (.inr ⟨m, hm, rfl⟩)
    · exact .inr (.inl hr)

/-- No number of an event is accounted for twice. -/
theorem Change.nodup (hc : Change s s' keep g f new) (h : s.accounted.Nodup)
    (hnew : ∀ m ∈ new, m.origin ∉ s.accounted) : s'.accounted.Nodup := by
  have horigins : s'.accounted = (s.list.nodes.filter keep).map (·.origin) ++
      new.toList.map (·.origin) ++ (s.reports.map (·.origin) ++
        ((s.list.nodes.filter fun n => !keep n).filter (shown .default)).map (·.origin)) := by
    have hshown : (shown .default ∘ f) = shown .default := funext fun n => by
      simp [shown, hc.fixed_f]
    simp only [State.accounted, hc.nodes, hc.reports, map_append, filter_map, map_map,
      comp_def, hc.origin_g, hc.fixed_f]
    rw [← comp_def (shown .default) f, hshown]
  -- the nodes that are kept, the new one, and the rest in some order
  have hperm : List.Perm s'.accounted (new.toList.map (·.origin) ++
      ((s.list.nodes.filter keep ++
        (s.list.nodes.filter fun n => !keep n).filter (shown .default)).map (·.origin) ++
          s.reports.map (·.origin))) := by grind
  rw [hperm.nodup_iff, nodup_append']
  refine ⟨?_, ?_, ?_⟩
  · cases new <;> simp
  · have hsub : (s.list.nodes.filter keep ++
        (s.list.nodes.filter fun n => !keep n).filter (shown .default)).Sublist
        (s.list.nodes.filter keep ++ s.list.nodes.filter fun n => !keep n) :=
      .append (.refl _) filter_sublist
    refine List.Nodup.sublist ((hsub.map _).append (.refl _)) ?_
    refine (List.Perm.nodup_iff ?_).mpr h
    exact ((filter_append_perm keep _).map _).append_right _
  · intro i hi hi'
    obtain ⟨m, hm, rfl⟩ := mem_map.mp hi
    refine hnew m (mem_toList.mp hm) ?_
    simp only [State.accounted, mem_append, mem_map, mem_filter] at hi' ⊢
    grind

namespace Treats

variable (ht : Treats es e s s' keep g f new)

include ht

theorem nodes_ok : ∀ n ∈ s'.list.nodes, NodeOk (es ++ [e]) n := by
  rw [ht.nodes]
  intro n hn
  rcases mem_append.mp hn with hn | hn
  · obtain ⟨m, hm, rfl⟩ := mem_map.mp hn
    obtain ⟨hm, hk⟩ := mem_filter.mp hm
    exact ht.kept m hm hk
  · exact (ht.added n (mem_toList.mp hn)).1

/-- What is accounted for was so before, or belongs to this event. -/
theorem accounted_cases (hi : i ∈ s'.accounted) : i ∈ s.accounted ∨ i = es.length := by
  rcases ht.mem_accounted.mp hi with ⟨n, hn, rfl, -⟩ | ⟨m, hm, rfl⟩ | hr
  · exact .inl (mem_append_left _ (mem_map_of_mem hn))
  · exact .inr (ht.added m hm).2.1
  · exact .inl (mem_append_right _ hr)

variable (h : Inv es s)

include h

theorem sessions : (s'.list.nodes.map (·.session)).Nodup := by
  have hmap : s'.list.nodes.map (·.session) =
      (s.list.nodes.filter keep).map (·.session) ++ new.toList.map (·.session) := by
    simp only [ht.nodes, map_append, map_map, comp_def, ht.session_g]
  rw [hmap, nodup_append']
  refine ⟨h.sessions.sublist (filter_sublist.map _), by cases new <;> simp, ?_⟩
  intro x hx hx'
  obtain ⟨n, hn, rfl⟩ := mem_map.mp hx
  obtain ⟨m, hm, heq⟩ := mem_map.mp hx'
  obtain ⟨hn, hk⟩ := mem_filter.mp hn
  exact (ht.added m (mem_toList.mp hm)).2.2 n hn hk heq.symm

theorem reported : ∀ r ∈ s'.reports, bootAt (es ++ [e]) r.origin = true ∨
    ConfirmedIn (es ++ [e]) r.origin := by
  rw [ht.reports]
  intro r hr
  rcases mem_append.mp hr with hr | hr
  · exact (h.reported r hr).imp bootAt_append fun hconf => confirmedIn_snoc.mpr (.inl hconf)
  · obtain ⟨hr, hz⟩ := mem_filter.mp hr
    obtain ⟨n, hn, rfl⟩ := mem_map.mp hr
    rw [shown_default, (ht.fixed_f n).2] at hz
    rw [(ht.fixed_f n).1]
    rcases (h.nodes_ok n (mem_filter.mp hn).1).stands with ⟨hboot, -⟩ | ⟨-, -, hres⟩
    · exact .inl (bootAt_append hboot)
    · exact .inr (confirmedIn_snoc.mpr (.inl (hres.mp hz)))

/-- What was accounted for still is, or it is dropped now, unless the event closes it and it has no
result. -/
theorem accounted_of_old (hold : (∃ p, OpenIn es i p) ∨ ConfirmedIn es i)
    (hclosed : ∀ n ∈ s.list.nodes, n.origin = i → e.confirms = none → e.Closes n.ids → n.result = 0) :
    i ∈ s'.accounted ∨ DroppedIn (es ++ [e]) i := by
  rcases h.complete i hold with hin | hdrop
  · rcases mem_append.mp hin with hin | hr
    · obtain ⟨n, hn, hni⟩ := mem_map.mp hin
      by_cases hstays : keep n = true ∨ n.result = 0
      · exact .inl (ht.mem_accounted.mpr (.inl ⟨n, hn, hni, hstays⟩))
      · have hk : keep n = false := Bool.eq_false_iff.mpr fun hk => hstays (.inl hk)
        obtain ⟨hconf, hcl | ⟨hkind, hfirst⟩⟩ := ht.removed n hn hk
        · exact absurd (.inr (hclosed n hn hni hconf hcl)) hstays
        · refine .inr (droppedIn_snoc.mpr (.inr ⟨hkind, n, ?_, hni, fun hres => hstays (.inr hres)⟩))
          rw [← (ht.shutdown hkind).1, hfirst]
    · exact .inl (ht.mem_accounted.mpr (.inr (.inr hr)))
  · exact .inr (droppedIn_snoc.mpr (.inl hdrop))

theorem complete (hi : (∃ p, OpenIn (es ++ [e]) i p) ∨ ConfirmedIn (es ++ [e]) i) :
    i ∈ s'.accounted ∨ DroppedIn (es ++ [e]) i := by
  rcases hi with ⟨p, hopen⟩ | hconf
  · rcases openIn_snoc.mp hopen with ⟨hold, hnot⟩ | ⟨rfl, hp⟩
    · refine ht.accounted_of_old h (.inl ⟨p, hold⟩) fun n hn hni _ hcl => ?_
      rw [(h.nodes_ok n hn).ids_eq (hni ▸ hold)] at hcl
      exact absurd hcl hnot
    · obtain ⟨m, hm⟩ := Option.isSome_iff_exists.mp (ht.opens (by rw [hp]; rfl))
      exact .inl (ht.mem_accounted.mpr (.inr (.inl ⟨m, hm, (ht.added m hm).2.1⟩)))
  · rcases confirmedIn_snoc.mp hconf with hold | ⟨p, hold, hp⟩
    · exact ht.accounted_of_old h (.inr hold) fun n hn hni _ _ =>
        (h.nodes_ok n hn).result_of_confirmed (hni ▸ hold)
    · refine ht.accounted_of_old h (.inl ⟨p, hold⟩) fun n hn hni hnone _ => ?_
      rw [hp] at hnone
      cases hnone

/-- What is dropped stays away. -/
theorem dropped (hi : DroppedIn (es ++ [e]) i) : i < es.length ∧ i ∉ s'.accounted := by
  rcases droppedIn_snoc.mp hi with hold | ⟨hkind, n, hfirst, rfl, hres⟩
  · obtain ⟨hlt, hnot⟩ := h.dropped i hold
    exact ⟨hlt, fun hin => (ht.accounted_cases hin).elim hnot (Nat.ne_of_lt hlt)⟩
  · obtain ⟨hs, hnamed⟩ := ht.shutdown hkind
    rw [← hs] at hfirst
    have hn : n ∈ s.list.nodes := mem_of_find?_eq_some hfirst
    have hlt := h.bound _ (mem_append_left _ (mem_map_of_mem hn))
    refine ⟨hlt, fun hin => ?_⟩
    rcases ht.mem_accounted.mp hin with ⟨n', hn', heq, hstays⟩ | ⟨m, hm, heq⟩ | hr
    · obtain rfl : n' = n :=
        inj_on_of_nodup_map (List.Nodup.of_append_left h.nodup) hn' hn heq
      simp_all
    · exact Nat.ne_of_lt hlt (heq.symm.trans (ht.added m hm).2.1)
    · exact disjoint_of_nodup_append h.nodup (mem_map_of_mem hn) hr

/-- **One event** that treats the nodes in this way keeps the invariant. -/
theorem inv : Inv (es ++ [e]) s' where
  index := by rw [ht.index, h.index, length_append, length_singleton]
  linked := ht.linked
  nodes_ok := ht.nodes_ok
  sessions := ht.sessions h
  nodup := by
    refine ht.nodup h.nodup fun m hm hin => ?_
    have hlt := h.bound _ hin
    rw [(ht.added m hm).2.1] at hlt
    exact Nat.lt_irrefl _ hlt
  bound i hi := by
    rw [length_append, length_singleton]
    exact (ht.accounted_cases hi).elim (fun hin => Nat.lt_succ_of_lt (h.bound i hin))
      fun heq => heq ▸ Nat.lt_succ_self _
  reported := ht.reported h
  complete _ hi := ht.complete h hi
  dropped i hi := by
    rw [length_append, length_singleton]
    exact (ht.dropped h hi).imp_left Nat.lt_succ_of_lt

end Treats

end Change

/-! ## The five handlers -/

section Handlers

variable {es : List Event} {e : Event} {s : State} {p : Ids}

/-- One node is closed, and the event is over. -/
theorem change_closeCur (h : Inv es s) {F : Node → Node}
    (hF : ∀ n, (F n).origin = n.origin ∧ (F n).result = n.result) {i : Nat}
    (hi : i < s.list.nodes.length) :
    Change s { closeCur .default F ⟨s.list.nodes, [], some i⟩ s with index := s.index + 1 }
      (fun n => n.session ≠ s.list.nodes[i].session) id F none := by
  obtain ⟨hnodes, hlinked⟩ := Chain.deleteCur_mk s.list.nodes [] hi
  rw [closeCur_eq .default F s hi]
  refine ⟨rfl, hlinked, ?_, ?_, fun _ => rfl, fun _ => rfl, hF⟩
  · rw [hnodes, eraseIdx_eq_filter (·.session) h.sessions hi, map_id, Option.toList_none,
      append_nil]
  · rw [filter_key_eq (·.session) h.sessions hi, map_singleton]

theorem validIds_eq_none {pid auid ses : Option Int} : validIds pid auid ses = none ↔
    pid.getD (-1) = -1 ∨ auid.getD (-1) = -1 ∨ ses.getD (-1) = -1 := by
  rw [validIds]
  split
  · rename_i h
    exact iff_of_true rfl h
  · rename_i h
    exact iff_of_false (by simp) h

theorem validIds_eq_some {pid auid ses : Option Int} (h : validIds pid auid ses = some p) :
    ¬ (pid.getD (-1) = -1 ∨ auid.getD (-1) = -1 ∨ ses.getD (-1) = -1) ∧
      p = ⟨pid.getD (-1), auid.getD (-1), ses.getD (-1)⟩ := by
  rw [validIds] at h
  simp_all

theorem Event.not_closes (hboot : e.kind ≠ .systemBoot) (hopens : e.opens = none)
    (hends : e.ends ≠ some p) : ¬ e.Closes p := by
  rintro (h | ⟨q, h, -⟩ | h)
  · exact hboot h
  · exact Option.some_ne_none q (h.symm.trans hopens)
  · exact hends h

/-- An event that opens nothing, closes nothing and is no boot or shutdown, and confirms at most the
session of a node whose result it sets to 0. -/
theorem Inv.update (h : Inv es s) {s' : State} {g : Node → Node} (hlinked : s'.list.Linked)
    (hnodes : s'.list.nodes = s.list.nodes.map g) (hreports : s'.reports = s.reports)
    (hindex : s'.index = s.index + 1) (hg : ∀ n, (g n).name = n.name ∧ (g n).start = n.start ∧
      (g n).origin = n.origin ∧ (g n).ids = n.ids)
    (hboot : e.kind ≠ .systemBoot) (hshutdown : e.kind ≠ .systemShutdown) (hopens : e.opens = none)
    (hends : ∀ n ∈ s.list.nodes, e.ends ≠ some n.ids)
    (hres : ∀ n ∈ s.list.nodes, (g n).result = if e.confirms = some n.ids then 0 else n.result) :
    Inv (es ++ [e]) s' := by
  have ht : Treats es e s s' (fun _ => true) g id none := by
    refine ⟨⟨hindex, hlinked, by simp [hnodes], by simp [hreports], fun n => (hg n).2.2.1,
      fun n => congrArg Ids.ses (hg n).2.2.2, fun _ => ⟨rfl, rfl⟩⟩, fun n hn _ => ?_,
      (fun n _ hk => by cases hk), fun hk => absurd hk hshutdown, (fun m hm => by cases hm),
      fun ho => by rw [hopens] at ho; cases ho⟩
    obtain ⟨hname, hstart, horigin, hids⟩ := hg n
    exact (h.nodes_ok n hn).snoc hname hstart horigin hids
      (Event.not_closes hboot hopens (hends n hn)) (hres n hn)
  exact ht.inv h

/-- An event that neither opens nor closes nor confirms anything, and is no boot or shutdown. -/
theorem Inv.idle (h : Inv es s) (hboot : e.kind ≠ .systemBoot) (hshutdown : e.kind ≠ .systemShutdown)
    (hopens : e.opens = none) (hends : ∀ n ∈ s.list.nodes, e.ends ≠ some n.ids)
    (hconfirms : ∀ n ∈ s.list.nodes, e.confirms ≠ some n.ids) (kernel : Option Bytes) :
    Inv (es ++ [e]) { s with kernel := kernel, index := s.index + 1 } :=
  h.update h.linked (map_id _).symm rfl rfl (fun _ => ⟨rfl, rfl, rfl, rfl⟩) hboot hshutdown hopens hends
    fun n hn => (if_neg (hconfirms n hn)).symm

theorem change_login (h : Inv es s) {r : Login} (hp : validIds r.pid r.auid r.ses = some p) :
    Change s { createNewSession .default e r s with index := s.index + 1 }
      (fun n => n.session ≠ p.ses) id (gone e) (some (loginNode e r es.length)) := by
  obtain ⟨hvalid, rfl⟩ := validIds_eq_some hp
  have huser : ¬ ((Options.default.user).isSome = true ∧ Options.default.user ≠ r.acct) := fun hu => by
    cases hu.1
  simp only [createNewSession, if_neg hvalid, if_neg huser]
  rw [← h.index]
  cases hfind : findSession s.list (r.ses.getD (-1)) with
  | none =>
    have hother := Chain.find_eq_none hfind
    obtain ⟨hnodes, hlinked⟩ := h.linked.append (loginNode e r s.index)
    refine ⟨rfl, hlinked, ?_, ?_, fun _ => rfl, fun _ => rfl, fun _ => ⟨rfl, rfl⟩⟩
    · rw [filter_eq_self.mpr (by simpa using hother), map_id]
      exact hnodes
    · simp_all
  | some l =>
    obtain ⟨i, hi, -, hses, rfl⟩ := Chain.find_eq_some hfind
    have hses : s.list.nodes[i].session = r.ses.getD (-1) := of_decide_eq_true hses
    have hclose := change_closeCur h (F := gone e) (fun _ => ⟨rfl, rfl⟩) hi
    rw [hses, closeCur_eq .default (gone e) s hi] at hclose
    dsimp only
    rw [closeCur_eq .default (gone e) s hi]
    obtain ⟨hnodes, hlinked⟩ := hclose.linked.append (loginNode e r s.index)
    refine ⟨rfl, hlinked, hnodes.trans ?_, hclose.reports, fun _ => rfl, fun _ => rfl,
      fun _ => ⟨rfl, rfl⟩⟩
    rw [hclose.nodes, Option.toList_none, append_nil, Option.toList_some]

theorem inv_login (h : Inv es s) {r : Login} (hkind : e.kind = .login r)
    (hacct : r.acct.isSome = true) (htime : e.time ≠ 0) :
    Inv (es ++ [e]) { createNewSession .default e r s with index := s.index + 1 } := by
  have hopens : e.opens = validIds r.pid r.auid r.ses := by rw [Event.opens, hkind]
  have hconfirms : e.confirms = none := by rw [Event.confirms, hkind]
  have hends : e.ends = none := by rw [Event.ends, hkind]
  cases hp : validIds r.pid r.auid r.ses with
  | none =>
    rw [createNewSession, if_pos (validIds_eq_none.mp hp)]
    exact h.idle (by simp [hkind]) (by simp [hkind]) (hopens.trans hp) (by simp [hends])
      (by simp [hconfirms]) s.kernel
  | some p =>
    rw [hp] at hopens
    have hids : (loginNode e r es.length).ids = p := (validIds_eq_some hp).2.symm
    have ht : Treats es e s { createNewSession .default e r s with index := s.index + 1 }
        (fun n => n.session ≠ p.ses) id (gone e) (some (loginNode e r es.length)) := by
      refine ⟨change_login h hp, fun n hn hk => ?_, fun n _ hk => ?_, fun hk => by simp [hkind] at hk,
        ?_, fun _ => rfl⟩
      · refine (h.nodes_ok n hn).snoc rfl rfl rfl rfl (fun hcl => ?_) (by rw [hconfirms]; rfl)
        rw [Event.Closes, hkind, hends] at hcl
        obtain ⟨q, hq, hses⟩ : ∃ q, e.opens = some q ∧ q.ses = n.ids.ses := by simpa using hcl
        obtain rfl := some.inj (hopens.symm.trans hq)
        exact of_decide_eq_true hk hses.symm
      · have hnot : ¬ n.session ≠ p.ses := of_decide_eq_false hk
        exact ⟨hconfirms, .inl (.inr (.inl ⟨p, hopens, (not_ne_iff.mp hnot).symm⟩))⟩
      · rintro _ ⟨⟩
        refine ⟨NodeOk.new hopens hids rfl hacct htime (show (-1 : Int) ≠ 0 by decide), rfl,
          fun n hn hk heq => ?_⟩
        exact of_decide_eq_true hk (heq.trans (congrArg Ids.ses hids))
    exact ht.inv h

/-- The search for the node of a session, if there are numbers to search for. -/
def findIds (l : Chain Node) (ids : Option Ids) : Option (Chain Node) :=
  ids.bind fun p => findAuid l p.auid p.pid p.ses

theorem findIds_eq_some {ids : Option Ids} {l : Chain Node} (hfind : findIds s.list ids = some l) :
    ∃ i, ∃ hi : i < s.list.nodes.length, ids = some s.list.nodes[i].ids ∧
      l = ⟨s.list.nodes, [], some i⟩ := by
  obtain ⟨p, rfl, hfind⟩ := Option.bind_eq_some_iff.mp hfind
  obtain ⟨i, hi, -, hids, rfl⟩ := Chain.find_eq_some hfind
  have hids := of_decide_eq_true hids
  refine ⟨i, hi, ?_, rfl⟩
  rw [Node.ids, hids.1, hids.2.1, hids.2.2]

theorem findIds_eq_none {ids : Option Ids} (hfind : findIds s.list ids = none) :
    ∀ n ∈ s.list.nodes, ids ≠ some n.ids := by
  rintro n hn rfl
  have := Chain.find_eq_none hfind n hn
  simp [Node.ids] at this

/-- The node of the session that is confirmed is updated. -/
theorem updateSessionLogin_default {r : UserLogin} (hkind : e.kind = .userLogin r) (s : State) :
    updateSessionLogin .default e r s = (findIds s.list e.confirms).elim s
      fun l => { s with list := l.update (updateStart r e.serial) } := by
  rw [updateSessionLogin, Event.confirms, hkind]
  by_cases hzero : r.result = 0
  · simp only [if_pos hzero, validIds, findIds]
    by_cases hvalid : r.pid.getD (-1) = -1 ∨ r.uid.getD (-1) = -1 ∨ r.ses.getD (-1) = -1
    · simp_all
    · rw [if_neg hvalid, if_neg fun hn => hvalid hn.2, Option.bind_some]
      cases findAuid s.list (r.uid.getD (-1)) (r.pid.getD (-1)) (r.ses.getD (-1)) <;>
        simp [Options.default]
  · simp only [if_neg hzero, findIds, Options.default]
    split <;> simp

theorem inv_userLogin (h : Inv es s) {r : UserLogin} (hkind : e.kind = .userLogin r) :
    Inv (es ++ [e]) { updateSessionLogin .default e r s with index := s.index + 1 } := by
  have hopens : e.opens = none := by rw [Event.opens, hkind]
  have hends : e.ends = none := by rw [Event.ends, hkind]
  rw [updateSessionLogin_default hkind]
  cases hfind : findIds s.list e.confirms with
  | none =>
    exact h.idle (by simp [hkind]) (by simp [hkind]) hopens (by simp [hends]) (findIds_eq_none hfind)
      s.kernel
  | some l =>
    obtain ⟨i, hi, hids, rfl⟩ := findIds_eq_some hfind
    have hzero : r.result = 0 := by
      by_contra hne
      rw [Event.confirms, hkind] at hids
      simp [hne] at hids
    rw [Option.elim_some, Chain.update_mk _ _ _ hi, modify_eq_map (·.session) _ h.sessions hi]
    refine h.update (g := fun n => if n.session = s.list.nodes[i].session then updateStart r e.serial n
        else n) (Chain.linked_mk _ _ (by simpa using hi)) rfl rfl rfl (fun n => ?_) (by simp [hkind])
      (by simp [hkind]) hopens (by simp [hends]) fun n hn => ?_
    · split <;> exact ⟨rfl, rfl, rfl, rfl⟩
    · by_cases hses : n.session = s.list.nodes[i].session
      · obtain rfl := inj_on_of_nodup_map h.sessions hn (getElem_mem hi) hses
        rw [if_pos rfl, if_pos hids]
        exact hzero
      · rw [if_neg hses, if_neg fun heq => hses ?_]
        exact (congrArg Ids.ses (some.inj (hids.symm.trans heq))).symm

/-- One node is closed by an event that confirms nothing: the one that the event closes, or the one that
a shutdown takes for the record of a boot. -/
theorem Inv.closeCur (h : Inv es s) {i : Nat} (hi : i < s.list.nodes.length) (hopens : e.opens = none)
    (hconfirms : e.confirms = none) (hboot : e.kind ≠ .systemBoot)
    (hends : ∀ p, e.ends = some p → p = s.list.nodes[i].ids)
    (hwhy : e.ends = some s.list.nodes[i].ids ∨ e.kind = .systemShutdown)
    (hshutdown : e.kind = .systemShutdown → s = run .default es ∧
      s.list.nodes.find? (·.name.isSome) = some s.list.nodes[i]) :
    Inv (es ++ [e])
      { closeCur .default (updateLogout e) ⟨s.list.nodes, [], some i⟩ s with index := s.index + 1 } := by
  have hc := change_closeCur h (F := updateLogout e) (fun _ => ⟨rfl, rfl⟩) hi
  refine Treats.inv ⟨hc, fun n hn hk => ?_, fun n hn hk => ?_, fun hkind => ?_, (fun m hm => by cases hm),
    fun ho => by rw [hopens] at ho; cases ho⟩ h
  · have hother : e.ends ≠ some n.ids := fun hcl => of_decide_eq_true hk (congrArg Ids.ses (hends _ hcl))
    exact (h.nodes_ok n hn).snoc rfl rfl rfl rfl (Event.not_closes hboot hopens hother)
      (by rw [hconfirms]; rfl)
  · have hnot : ¬ n.session ≠ s.list.nodes[i].session := of_decide_eq_false hk
    obtain rfl := inj_on_of_nodup_map h.sessions hn (getElem_mem hi) (not_ne_iff.mp hnot)
    exact ⟨hconfirms, hwhy.imp (fun hwhy => .inr (.inr hwhy)) fun hkind => ⟨hkind, (hshutdown hkind).2⟩⟩
  · refine ⟨(hshutdown hkind).1, fun n hn => ?_⟩
    simp_all

/-- The record of a boot can be removed without a report. -/
theorem Inv.forget (h : Inv es s) {i : Nat} (hi : i < s.list.nodes.length)
    (hboot : bootAt es s.list.nodes[i].origin = true) :
    Inv es { s with list := (⟨s.list.nodes, [], some i⟩ : Chain Node).deleteCur } := by
  obtain ⟨hnodes, hlinked⟩ := Chain.deleteCur_mk s.list.nodes [] hi
  have hsub : (⟨s.list.nodes, [], some i⟩ : Chain Node).deleteCur.nodes.Sublist s.list.nodes := by
    rw [hnodes]
    exact eraseIdx_sublist _ _
  have haccounted : State.accounted { s with
      list := (⟨s.list.nodes, [], some i⟩ : Chain Node).deleteCur } <+ s.accounted :=
    (hsub.map _).append (.refl _)
  refine ⟨h.index, hlinked, fun n hn => h.nodes_ok n (hsub.subset hn), h.sessions.sublist (hsub.map _),
    h.nodup.sublist haccounted, fun j hj => h.bound j (haccounted.subset hj), h.reported,
    fun j hj => ?_, fun j hj => ?_⟩
  · have hopens : ∃ x p, es[j]? = some x ∧ x.opens = some p := by
      rcases hj with ⟨p, hopen⟩ | hconf
      · obtain ⟨x, hx, hp⟩ := hopen.opens
        exact ⟨x, p, hx, hp⟩
      · exact hconf.opens
    obtain ⟨x, p, hx, hp⟩ := hopens
    refine (h.complete j hj).imp_left fun hin => ?_
    rcases mem_append.mp hin with hin | hin
    · obtain ⟨n, hn, rfl⟩ := mem_map.mp hin
      refine mem_append_left _ (mem_map_of_mem ?_)
      rw [hnodes, eraseIdx_eq_filter (·.session) h.sessions hi, mem_filter]
      refine ⟨hn, decide_eq_true fun hses => ?_⟩
      obtain rfl := inj_on_of_nodup_map h.sessions hn (getElem_mem hi) hses
      exact not_opens_of_bootAt hboot hx hp
    · exact mem_append_right _ hin
  · obtain ⟨hlt, hnot⟩ := h.dropped j hj
    exact ⟨hlt, fun hin => hnot (haccounted.subset hin)⟩

theorem updateSessionLogout_default {r : UserEnd} (hkind : e.kind = .userEnd r) (s : State) :
    updateSessionLogout .default e r s = (findIds s.list e.ends).elim s fun l =>
      if l.getCur.any (fun n => n.start ≠ 0) then Aulast.closeCur .default (updateLogout e) l s
      else { s with list := l.deleteCur } := by
  rw [updateSessionLogout, Event.ends, hkind]
  simp only [validIds, findIds]
  grind

theorem inv_userEnd (h : Inv es s) {r : UserEnd} (hkind : e.kind = .userEnd r) :
    Inv (es ++ [e]) { updateSessionLogout .default e r s with index := s.index + 1 } := by
  have hopens : e.opens = none := by rw [Event.opens, hkind]
  have hconfirms : e.confirms = none := by rw [Event.confirms, hkind]
  have hshutdown : e.kind ≠ .systemShutdown := by simp [hkind]
  have hboot : e.kind ≠ .systemBoot := by simp [hkind]
  rw [updateSessionLogout_default hkind]
  cases hfind : findIds s.list e.ends with
  | none => exact h.idle hboot hshutdown hopens (findIds_eq_none hfind) (by simp [hconfirms]) s.kernel
  | some l =>
    obtain ⟨i, hi, hids, rfl⟩ := findIds_eq_some hfind
    rw [Option.elim_some]
    by_cases hstart : s.list.nodes[i].start = 0
    · -- the record of a boot at a time that is 0 as an `int`
      rw [if_neg (by simpa [Chain.getCur, hi] using hstart)]
      have hboot' : bootAt es s.list.nodes[i].origin = true :=
        (h.nodes_ok _ (getElem_mem hi)).stands.elim (·.1) fun hopen => absurd hstart hopen.1
      refine (h.forget hi hboot').idle hboot hshutdown hopens (fun n hn hends => ?_) (by simp [hconfirms])
        s.kernel
      rw [(Chain.deleteCur_mk s.list.nodes [] hi).1, eraseIdx_eq_filter (·.session) h.sessions hi,
        mem_filter] at hn
      exact of_decide_eq_true hn.2 (congrArg Ids.ses (some.inj (hends.symm.trans hids)))
    · rw [if_pos (by simpa [Chain.getCur, hi] using hstart)]
      refine h.closeCur hi hopens hconfirms hboot (fun q hq => ?_) (.inl hids) fun hk => absurd hk hshutdown
      exact some.inj (hq.symm.trans hids)

theorem inv_systemShutdown (h : Inv es s) (hs : s = run .default es) (hkind : e.kind = .systemShutdown) :
    Inv (es ++ [e]) { processShutdown .default e s with index := s.index + 1 } := by
  have hopens : e.opens = none := by rw [Event.opens, hkind]
  have hconfirms : e.confirms = none := by rw [Event.confirms, hkind]
  have hends : e.ends = none := by rw [Event.ends, hkind]
  rw [processShutdown]
  cases hfind : s.list.find (·.name.isSome) with
  | none =>
    -- every node has a name, so there is none
    have hnil : s.list.nodes = [] := by
      refine eq_nil_iff_forall_not_mem.mpr fun n hn => ?_
      have := Chain.find_eq_none hfind n hn
      rw [(h.nodes_ok n hn).named] at this
      cases this
    have hc : Change s { s with list := { s.list with cur := none }, index := s.index + 1 }
        (fun _ => true) id id none := by
      refine ⟨rfl, fun hne => absurd hnil hne, ?_, ?_, fun _ => rfl, fun _ => rfl, fun _ => ⟨rfl, rfl⟩⟩
      · simp
      · simp
    refine Treats.inv ⟨hc, ?_, ?_, fun _ => ⟨hs, ?_⟩, (fun m hm => by cases hm),
      fun ho => by rw [hopens] at ho; cases ho⟩ h
    all_goals simp [hnil]
  | some l =>
    obtain ⟨i, hi, hidx, hname, rfl⟩ := Chain.find_eq_some hfind
    refine h.closeCur hi hopens hconfirms (by simp [hkind]) (by simp [hends]) (.inr hkind)
      fun _ => ⟨hs, ?_⟩
    refine List.find?_eq_some_iff_getElem.mpr ⟨hname, i, hi, rfl, fun j hj => ?_⟩
    have := (List.findIdx?_eq_some_iff_getElem.mp hidx).2.2 j hj
    rwa [Bool.not_eq_true', ← Bool.not_eq_true]

theorem inv_systemBoot (h : Inv es s) (hkind : e.kind = .systemBoot) :
    Inv (es ++ [e]) { processBootup .default e s with index := s.index + 1 } := by
  have hopens : e.opens = none := by rw [Event.opens, hkind]
  have hconfirms : e.confirms = none := by rw [Event.confirms, hkind]
  have hall : s.list.nodes.filter (·.name.isSome) = s.list.nodes :=
    filter_eq_self.mpr fun n hn => (h.nodes_ok n hn).named
  have hnone : (s.list.nodes.map (crashed e)).filter (fun n => decide (n.status ≠ .crash)) = [] := by
    refine filter_eq_nil_iff.mpr fun n hn => ?_
    obtain ⟨m, hm, rfl⟩ := mem_map.mp hn
    rw [crashed, if_pos (h.nodes_ok m hm).named]
    simp
  have hc : Change s { processBootup .default e s with index := s.index + 1 } (fun _ => false) id
      (crashed e) (some (bootNode e s.kernel s.index)) := by
    simp only [processBootup, hall, hnone, foldl_report, map_nil, filter_nil]
    obtain ⟨hnodes, hlinked⟩ := (Chain.linked_empty (α := Node)).append (bootNode e s.kernel s.index)
    refine ⟨rfl, hlinked, ?_, ?_, fun _ => rfl, fun _ => rfl, fun n => ?_⟩
    · rw [hnodes]
      simp [Chain.empty]
    · simp
    · rw [crashed]
      split <;> exact ⟨rfl, rfl⟩
  refine Treats.inv ⟨hc, (fun n _ hk => by cases hk), fun n _ _ => ⟨hconfirms, .inl (.inl hkind)⟩,
    fun hk => by simp [hkind] at hk, ?_, fun ho => by rw [hopens] at ho; cases ho⟩ h
  rintro _ ⟨⟩
  refine ⟨⟨rfl, .inl ⟨?_, rfl⟩⟩, h.index, fun n _ hk => by cases hk⟩
  show bootAt (es ++ [e]) s.index = true
  rw [h.index, bootAt_last, decide_eq_true hkind]

/-- Events with a time whose accounts can be interpreted. -/
structure Event.Readable (e : Event) : Prop where
  time : e.time ≠ 0
  acct : ∀ r, e.kind = .login r → r.acct.isSome = true

/-- **The invariant holds** after any events. -/
theorem inv_run (es : List Event) (hread : ∀ e ∈ es, e.Readable) : Inv es (run .default es) := by
  induction es using List.reverseRecOn with
  | nil => exact inv_nil
  | append_singleton es e ih =>
    have h := ih fun x hx => hread x (mem_append_left _ hx)
    have he := hread e (mem_append_right _ (mem_singleton_self e))
    rw [run_snoc, handle]
    have hidle (hkind : e.kind = .other ∨ ∃ kernel, e.kind = .daemonStart kernel) (kernel : Option Bytes) :
        Inv (es ++ [e]) { run .default es with kernel, index := (run .default es).index + 1 } := by
      rcases hkind with hkind | ⟨_, hkind⟩ <;>
        exact h.idle (by simp [hkind]) (by simp [hkind]) (by rw [Event.opens, hkind])
          (by simp [Event.ends, hkind]) (by simp [Event.confirms, hkind]) kernel
    cases hkind : e.kind with
    | login r => exact inv_login h hkind (he.acct r hkind) he.time
    | userLogin r => exact inv_userLogin h hkind
    | userEnd r => exact inv_userEnd h hkind
    | systemBoot => exact inv_systemBoot h hkind
    | systemShutdown => exact inv_systemShutdown h rfl hkind
    | daemonStart kernel => exact hidle (.inr ⟨kernel, hkind⟩) _
    | other => exact hidle (.inl hkind) _

end Handlers

/-! ## Reports -/

theorem aulast_default (es : List Event) : aulast .default es =
    (run .default es).reports ++ (run .default es).list.nodes.filter (shown .default) := by
  rw [aulast]
  exact (congrArg State.reports (foldl_report .default id _ _)).trans (by rw [map_id])

/-- How often the session that the `i`-th event opens is reported. -/
def reportCount (es : List Event) (i : Nat) : Nat :=
  ((aulast .default es).map (·.origin)).count i

/-- The session that the `i`-th event opens is reported once if it is confirmed, and not at all
otherwise. -/
def ReportedRight (es : List Event) (i : Nat) : Prop :=
  (ConfirmedIn es i → reportCount es i = 1) ∧ (¬ ConfirmedIn es i → reportCount es i = 0)

section Reports

variable {es : List Event} {i : Nat}

theorem mem_reports_iff (h : Inv es (run .default es)) {e : Event} {p : Ids} (he : es[i]? = some e)
    (hp : e.opens = some p) :
    i ∈ (aulast .default es).map (·.origin) ↔ ConfirmedIn es i ∧ ¬ DroppedIn es i := by
  have hboot : ¬ bootAt es i = true := fun hb => not_opens_of_bootAt hb he hp
  rw [aulast_default]
  simp only [map_append, mem_append, mem_map, mem_filter, shown_default]
  constructor
  · rintro (⟨r, hr, rfl⟩ | ⟨n, ⟨hn, hz⟩, rfl⟩)
    · refine ⟨(h.reported r hr).resolve_left hboot, fun hd => (h.dropped _ hd).2 ?_⟩
      exact mem_append_right _ (mem_map_of_mem hr)
    · refine ⟨?_, fun hd => (h.dropped _ hd).2 (mem_append_left _ (mem_map_of_mem hn))⟩
      rcases (h.nodes_ok n hn).stands with ⟨hb, -⟩ | ⟨-, -, hres⟩
      · exact absurd hb hboot
      · exact hres.mp hz
  · rintro ⟨hconf, hnot⟩
    have hin := (h.complete i (.inr hconf)).resolve_right hnot
    rcases mem_append.mp hin with hin | hin
    · obtain ⟨n, hn, rfl⟩ := mem_map.mp hin
      exact .inr ⟨n, ⟨hn, (h.nodes_ok n hn).result_of_confirmed hconf⟩, rfl⟩
    · exact .inl (mem_map.mp hin)

theorem nodup_reports (h : Inv es (run .default es)) : ((aulast .default es).map (·.origin)).Nodup := by
  rw [aulast_default, map_append]
  refine (perm_append_comm.nodup_iff).mpr (h.nodup.sublist ?_)
  exact (filter_sublist.map _).append (.refl _)

/-- **Each session is reported once if it was confirmed, and otherwise not at all**, and no two nodes
have the same session number, if and only if no session that is confirmed was taken for the record of a
boot by a shutdown before. -/
theorem exactly_once_iff (es : List Event) (hread : ∀ e ∈ es, e.Readable) :
    ((∀ i e p, es[i]? = some e → e.opens = some p → ReportedRight es i) ∧
        ∀ before, before <+: es → ((run .default before).list.nodes.map (·.session)).Nodup) ↔
      ∀ i, DroppedIn es i → ¬ ConfirmedIn es i := by
  have h := inv_run es hread
  constructor
  · rintro ⟨hright, -⟩ i hdrop hconf
    obtain ⟨e, p, he, hp⟩ := hconf.opens
    have hcount := (hright i e p he hp).1 hconf
    have hmem : i ∈ (aulast .default es).map (·.origin) :=
      count_pos_iff.mp (by rw [reportCount] at hcount; omega)
    exact ((mem_reports_iff h he hp).mp hmem).2 hdrop
  · intro hdrop
    refine ⟨fun i e p he hp => ⟨fun hconf => ?_, fun hconf => ?_⟩, fun before hb => ?_⟩
    · refine count_eq_one_of_mem (nodup_reports h) ((mem_reports_iff h he hp).mpr ⟨hconf, ?_⟩)
      exact fun hd => hdrop i hd hconf
    · exact count_eq_zero.mpr fun hmem => hconf ((mem_reports_iff h he hp).mp hmem).1
    · exact (inv_run before fun e he => hread e (hb.subset he)).sessions

/-- A user logs in. -/
def someLogin : Event := ⟨.login ⟨some 10, some 1000, some (ascii "root"), some 3⟩, 100, 1⟩

/-- The login is confirmed. -/
def someUserLogin : Event :=
  ⟨.userLogin ⟨some 10, some 3, some 1000, none, none, none, some (ascii "success"), none⟩, 102, 3⟩

/-- The system is shut down. -/
def someShutdown : Event := ⟨.systemShutdown, 101, 2⟩

/-- A session that is confirmed and still open. -/
theorem exactly_once_two_events : (∀ i e p, [someLogin, someUserLogin][i]? = some e → e.opens = some p →
        ReportedRight [someLogin, someUserLogin] i) ∧
      ∀ before, before <+: [someLogin, someUserLogin] →
        ((run .default before).list.nodes.map (·.session)).Nodup := by
  refine (exactly_once_iff [someLogin, someUserLogin] ?_).mpr ?_
  · intro e he
    simp only [mem_cons, not_mem_nil, or_false] at he
    rcases he with rfl | rfl
    · exact ⟨by decide, fun r hr => by cases hr; rfl⟩
    · exact ⟨by decide, fun r hr => by cases hr⟩
  · rintro i ⟨before, e, after, n, heq, hkind, -⟩
    have he : e ∈ [someLogin, someUserLogin] := heq ▸ by simp
    simp only [mem_cons, not_mem_nil, or_false] at he
    rcases he with rfl | rfl
    · cases hkind
    · cases hkind

/-- A shutdown between a login and its confirmation: the session is not reported. -/
theorem session_lost_to_shutdown : ConfirmedIn [someLogin, someShutdown, someUserLogin] 0 ∧
      reportCount [someLogin, someShutdown, someUserLogin] 0 = 0 := by
  refine ⟨⟨[someLogin, someShutdown], someUserLogin, [], ⟨10, 1000, 3⟩, rfl, ?_, by decide⟩,
    by decide⟩
  refine ⟨[], someLogin, [someShutdown], rfl, rfl, by decide, ?_⟩
  intro x hx
  obtain rfl := mem_singleton.mp hx
  rintro (h | ⟨q, h, -⟩ | h) <;> cases h

end Reports

end LibAudit.Aulast
