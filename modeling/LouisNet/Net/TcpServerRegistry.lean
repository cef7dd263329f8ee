import LouisNet.Net.TcpServer

set_option relaxedAutoImplicit false
set_option autoImplicit false

/-!
# The map of connections

The map of a server is keyed by descriptors, which the kernel gives out again, and a connection is
removed by the number of its descriptor, in a task that another loop has queued. What keeps this
sound is the lifetime of a connection: as long as a task refers to it, its descriptor is open, and
no other connection has it. Descriptors of connections that have not been freed are distinct, an
entry leads to such a connection, and a connection that is not destroyed is held by the map, by a
task that removes or destroys it, or by `onNewConnection`.

## Main definitions

* `LouisNet.Net.TcpServer.Registry` — the invariant.

## Main results

* `LouisNet.Net.TcpServer.registry_step` — one step.
* `LouisNet.Net.TcpServer.registry_sound` — runs.
-/

namespace LouisNet.Net.TcpServer

open Lib

variable {Λ : Type*} [DecidableEq Λ]

/-! ## The invariant -/

/-- **The invariant**, while the task of the connection `running` runs. -/
structure Registry (running : Option ℕ) (s : TcpServer Λ) : Prop where
  /-- An entry leads to a connection with its descriptor. -/
  entry : ∀ fd c, s.connections_.find? fd = some c → ∃ o, s.objects[c]? = some o ∧ o.fd = fd
  /-- What is referenced has not been freed. -/
  alive : ∀ c, running = some c ∨ s.Referenced c → ∃ o, s.objects[c]? = some o ∧ o.freed = false
  /-- Open descriptors are distinct. -/
  unique : ∀ (c d : ℕ) (o p : Conn Λ), s.objects[c]? = some o → s.objects[d]? = some p → o.freed = false →
    p.freed = false → o.fd = p.fd → c = d
  /-- What is not destroyed is held, by more than a task that establishes it. -/
  held : ∀ c o, s.objects[c]? = some o → o.destroyed = false →
    running = some c ∨ s.accepting = some c ∨ s.connections_.find? o.fd = some c ∨
      .removeConnectionInLoop c ∈ s.tasks_ s.mainLoop_ ∨ .connectionDestroyed c ∈ s.tasks_ o.ioLoop
  /-- There is no entry under the descriptor of a connection that is still to be stored. -/
  fresh : ∀ c o, s.accepting = some c → s.objects[c]? = some o →
    s.connections_.find? o.fd = none
  /-- A connection that is still to be established. -/
  establishing : ∀ loop c o, .connectionEstablished c ∈ s.tasks_ loop → s.objects[c]? = some o →
    o.ioLoop = loop ∧ o.registered = false ∧ o.destroyed = false
  once : ∀ loop c, (s.tasks_ loop).count (.connectionEstablished c) ≤ 1
  /-- Only an established connection is removed and destroyed. -/
  after : ∀ loop c, .removeConnectionInLoop c ∈ s.tasks_ loop ∨
    .connectionDestroyed c ∈ s.tasks_ loop →
    ∀ loop', .connectionEstablished c ∉ s.tasks_ loop'
  unregistered : ∀ (c : ℕ) (o : Conn Λ), s.objects[c]? = some o → o.destroyed = true → o.registered = false
  proper : ∀ change ∈ s.changes, change.Proper

omit [DecidableEq Λ] in
/-- A server without connections. -/
theorem registry_new (mainLoop_ : Λ) (subLoops_ : List Λ) :
    Registry none { mainLoop_, subLoops_ } where
  entry := by simp
  alive := by
    rintro c (h | h | ⟨e, he, -⟩ | ⟨loop, task, htask, -⟩)
    · cases h
    · cases h
    · cases he
    · cases htask
  unique := by simp
  held := by simp
  fresh := by simp
  establishing := by simp
  once := by simp
  after := by simp
  unregistered := by simp
  proper := by simp

/-- What waits in the loops after one more task was queued. -/
theorem mem_queueInLoop {s : TcpServer Λ} {loop loop' : Λ} {task task' : Task} :
    task' ∈ (s.queueInLoop loop task).tasks_ loop' ↔
      task' ∈ s.tasks_ loop' ∨ loop' = loop ∧ task' = task := by
  by_cases h : loop' = loop
  · subst h
    simp [queueInLoop]
  · simp [queueInLoop, h]

omit [DecidableEq Λ] in
/-- The references of a map are its entries. -/
theorem exists_mem_entries_iff {m : SortedMap ℕ ℕ} {c : ℕ} :
    (∃ e ∈ m.entries, e.2 = c) ↔ ∃ fd, m.find? fd = some c := by
  constructor
  · rintro ⟨⟨fd, d⟩, he, rfl⟩
    exact ⟨fd, SortedMap.mem_entries_iff.mp he⟩
  · rintro ⟨fd, hfd⟩
    exact ⟨(fd, c), SortedMap.mem_entries_iff.mpr hfd, rfl⟩

section

variable {s : TcpServer Λ} {running : Option ℕ}

/-! ## The parts of the steps -/

/-- A task is queued: it refers to a connection that is alive; a connection is established once
and first. -/
theorem Registry.queueInLoop (h : Registry running s) (loop : Λ) (task : Task)
    (halive : ∃ o, s.objects[task.conn]? = some o ∧ o.freed = false)
    (hest : ∀ c, task = .connectionEstablished c →
      (∀ o, s.objects[c]? = some o → o.ioLoop = loop ∧ o.registered = false ∧ o.destroyed = false) ∧
      ∀ loop', .connectionEstablished c ∉ s.tasks_ loop' ∧
        .removeConnectionInLoop c ∉ s.tasks_ loop' ∧ .connectionDestroyed c ∉ s.tasks_ loop')
    (hafter : ∀ c, task = .removeConnectionInLoop c ∨ task = .connectionDestroyed c →
      ∀ loop', .connectionEstablished c ∉ s.tasks_ loop') :
    Registry running (s.queueInLoop loop task) := by
  refine ⟨h.entry, ?_, h.unique, ?_, h.fresh, ?_, ?_, ?_, h.unregistered, h.proper⟩
  · rintro c (hr | ha | he | ⟨loop', task', htask', rfl⟩)
    · exact h.alive c (.inl hr)
    · exact h.alive c (.inr (.inl ha))
    · exact h.alive c (.inr (.inr (.inl he)))
    · rcases mem_queueInLoop.mp htask' with hold | ⟨-, rfl⟩
      · exact h.alive _ (.inr (.inr (.inr ⟨loop', task', hold, rfl⟩)))
      · exact halive
  · intro c o ho hd
    rcases h.held c o ho hd with hr | ha | he | hremove | hdestroy
    · exact .inl hr
    · exact .inr (.inl ha)
    · exact .inr (.inr (.inl he))
    · exact .inr (.inr (.inr (.inl (mem_queueInLoop.mpr (.inl hremove)))))
    · exact .inr (.inr (.inr (.inr (mem_queueInLoop.mpr (.inl hdestroy)))))
  · intro loop' c o hmem ho
    rcases mem_queueInLoop.mp hmem with hold | ⟨rfl, htask⟩
    · exact h.establishing loop' c o hold ho
    · exact (hest c htask.symm).1 o ho
  · intro loop' c
    by_cases hl : loop' = loop
    · subst hl
      by_cases htask : task = .connectionEstablished c
      · have hnot := ((hest c htask).2 loop').1
        simp [TcpServer.queueInLoop, htask, List.count_eq_zero.mpr hnot]
      · simpa [TcpServer.queueInLoop, List.count_cons, htask] using h.once loop' c
    · simpa [TcpServer.queueInLoop, hl] using h.once loop' c
  · intro loop' c hmem loop'' hmem'
    have hcases : (.removeConnectionInLoop c ∈ s.tasks_ loop' ∨
        .connectionDestroyed c ∈ s.tasks_ loop') ∨
        task = .removeConnectionInLoop c ∨ task = .connectionDestroyed c := by
      rcases hmem with hmem | hmem
      · rcases mem_queueInLoop.mp hmem with hold | ⟨-, htask⟩
        · exact .inl (.inl hold)
        · exact .inr (.inl htask.symm)
      · rcases mem_queueInLoop.mp hmem with hold | ⟨-, htask⟩
        · exact .inl (.inr hold)
        · exact .inr (.inr htask.symm)
    rcases mem_queueInLoop.mp hmem' with hold' | ⟨-, htask'⟩
    · rcases hcases with hold | htask
      · exact h.after loop' c hold loop'' hold'
      · exact hafter c htask loop'' hold'
    · rcases hcases with (hold | hold) | htask
      · exact ((hest c htask'.symm).2 loop').2.1 hold
      · exact ((hest c htask'.symm).2 loop').2.2 hold
      · rw [← htask'] at htask
        rcases htask with htask | htask <;> cases htask

/-- What waits in the loops when one of them has taken its next task. -/
theorem mem_pop {loop loop' : Λ} {task task' : Task} {tasks : List Task}
    (htasks : s.tasks_ loop = task :: tasks)
    (h : task' ∈ Function.update s.tasks_ loop tasks loop') : task' ∈ s.tasks_ loop' := by
  by_cases hl : loop' = loop
  · subst hl
    rw [Function.update_self] at h
    rw [htasks]
    exact List.mem_cons_of_mem _ h
  · rwa [Function.update_of_ne hl] at h

/-- A task that waits is the one that is taken, or waits on. -/
theorem mem_or_eq_of_pop {loop loop' : Λ} {task task' : Task} {tasks : List Task}
    (htasks : s.tasks_ loop = task :: tasks) (h : task' ∈ s.tasks_ loop') :
    task' ∈ Function.update s.tasks_ loop tasks loop' ∨ task' = task := by
  by_cases hl : loop' = loop
  · subst hl
    rw [htasks] at h
    rw [Function.update_self]
    exact (List.mem_cons.mp h).symm
  · rw [Function.update_of_ne hl]
    exact .inl h

/-- A loop takes its next task, which still holds its connection while it runs. -/
theorem Registry.pop (h : Registry none s) {loop : Λ} {task : Task} {tasks : List Task}
    (htasks : s.tasks_ loop = task :: tasks)
    (hrunning : running = some task.conn ∨
      running = none ∧ task = .connectionEstablished task.conn) :
    Registry running { s with tasks_ := Function.update s.tasks_ loop tasks } := by
  have hpop : ∀ {loop' task'}, task' ∈ Function.update s.tasks_ loop tasks loop' →
      task' ∈ s.tasks_ loop' := fun hmem => mem_pop htasks hmem
  have htask : task ∈ s.tasks_ loop := htasks ▸ List.mem_cons_self
  refine ⟨h.entry, ?_, h.unique, ?_, h.fresh, ?_, ?_, ?_, h.unregistered, h.proper⟩
  · rintro c (hr | ha | he | ⟨loop', task', htask', rfl⟩)
    · rcases hrunning with heq | ⟨heq, -⟩
      · obtain rfl : task.conn = c := Option.some.inj (heq.symm.trans hr)
        exact h.alive _ (.inr (.inr (.inr ⟨loop, task, htask, rfl⟩)))
      · rw [heq] at hr
        cases hr
    · exact h.alive c (.inr (.inl ha))
    · exact h.alive c (.inr (.inr (.inl he)))
    · exact h.alive _ (.inr (.inr (.inr ⟨loop', task', hpop htask', rfl⟩)))
  · intro c o ho hd
    have hcase : ∀ {loop' task'}, task' ∈ s.tasks_ loop' → task'.conn = c →
        task' ≠ .connectionEstablished c →
        running = some c ∨ task' ∈ Function.update s.tasks_ loop tasks loop' := by
      intro loop' task' hmem hconn hne
      rcases mem_or_eq_of_pop htasks hmem with hold | rfl
      · exact .inr hold
      · left
        rcases hrunning with heq | ⟨-, hest⟩
        · rw [heq, hconn]
        · rw [hconn] at hest
          exact absurd hest hne
    rcases h.held c o ho hd with hr | ha | he | hremove | hdestroy
    · cases hr
    · exact .inr (.inl ha)
    · exact .inr (.inr (.inl he))
    · exact (hcase hremove rfl nofun).imp_right fun hmem => .inr (.inr (.inl hmem))
    · exact (hcase hdestroy rfl nofun).imp_right fun hmem => .inr (.inr (.inr hmem))
  · intro loop' c o hmem ho
    exact h.establishing loop' c o (hpop hmem) ho
  · intro loop' c
    refine le_trans ?_ (h.once loop' c)
    by_cases hl : loop' = loop
    · subst hl
      simp [htasks, List.count_cons]
    · simp [hl]
  · intro loop' c hmem loop'' hmem'
    exact h.after loop' c (hmem.imp hpop hpop) loop'' (hpop hmem')

omit [DecidableEq Λ] in
/-- A connection in a changed list of connections. -/
theorem getElem?_modify {c d : ℕ} {f : Conn Λ → Conn Λ} {o : Conn Λ}
    (h : (s.modify c f).objects[d]? = some o) :
    ∃ p, s.objects[d]? = some p ∧ o = if c = d then f p else p := by
  unfold TcpServer.modify at h
  dsimp only at h
  rw [List.getElem?_modify] at h
  obtain ⟨p, hp, heq⟩ := Option.map_eq_some_iff.mp h
  exact ⟨p, hp, heq.symm⟩

omit [DecidableEq Λ] in
/-- A connection is changed. Its descriptor and its loop stay, and it is not freed while something
refers to it. -/
theorem Registry.modify (h : Registry running s) {c : ℕ} {f : Conn Λ → Conn Λ}
    (hfd : ∀ p, (f p).fd = p.fd) (hloop : ∀ p, (f p).ioLoop = p.ioLoop)
    (hfreed : ∀ p, (f p).freed = false → p.freed = false)
    (halive : running = some c ∨ s.Referenced c → ∀ p, (f p).freed = p.freed)
    (hdestroyed : ∀ p, (f p).destroyed = false → p.destroyed = false)
    (hest : ∀ loop p, .connectionEstablished c ∈ s.tasks_ loop → s.objects[c]? = some p →
      (f p).registered = false ∧ (f p).destroyed = false)
    (hunregistered : ∀ p, s.objects[c]? = some p → (f p).destroyed = true →
      (f p).registered = false) : Registry running (s.modify c f) := by
  have hobject : ∀ {d p}, s.objects[d]? = some p →
      (s.modify c f).objects[d]? = some (if c = d then f p else p) := by
    intro d p hp
    unfold TcpServer.modify
    dsimp only
    rw [List.getElem?_modify, hp]
    rfl
  refine ⟨?_, ?_, ?_, ?_, ?_, ?_, h.once, h.after, ?_, h.proper⟩
  · intro fd d hd
    obtain ⟨p, hp, rfl⟩ := h.entry fd d hd
    refine ⟨_, hobject hp, ?_⟩
    split_ifs
    · exact hfd p
    · rfl
  · intro d hd
    obtain ⟨p, hp, hpf⟩ := h.alive d hd
    refine ⟨_, hobject hp, ?_⟩
    split_ifs with hcd
    · subst hcd
      rw [halive hd p, hpf]
    · exact hpf
  · intro d e o p ho hp hof hpf hfds
    obtain ⟨o', ho', rfl⟩ := getElem?_modify ho
    obtain ⟨p', hp', rfl⟩ := getElem?_modify hp
    refine h.unique d e o' p' ho' hp' ?_ ?_ ?_
    · split_ifs at hof
      · exact hfreed o' hof
      · exact hof
    · split_ifs at hpf
      · exact hfreed p' hpf
      · exact hpf
    · have hkeep : ∀ (x : ℕ) (q : Conn Λ), (if c = x then f q else q).fd = q.fd := by
        intro x q
        split_ifs
        · exact hfd q
        · rfl
      rwa [hkeep, hkeep] at hfds
  · intro d o ho hod
    obtain ⟨o', ho', rfl⟩ := getElem?_modify ho
    have hod' : o'.destroyed = false := by
      split_ifs at hod
      · exact hdestroyed o' hod
      · exact hod
    have hheld := h.held d o' ho' hod'
    split_ifs
    · rwa [hfd, hloop]
    · exact hheld
  · intro d o hd ho
    obtain ⟨o', ho', rfl⟩ := getElem?_modify ho
    have hfresh := h.fresh d o' hd ho'
    split_ifs
    · rwa [hfd]
    · exact hfresh
  · intro loop d o hmem ho
    obtain ⟨o', ho', rfl⟩ := getElem?_modify ho
    have hold := h.establishing loop d o' hmem ho'
    split_ifs with hcd
    · subst hcd
      exact ⟨(hloop o').trans hold.1, hest loop o' hmem ho'⟩
    · exact hold
  · intro d o ho hod
    obtain ⟨o', ho', rfl⟩ := getElem?_modify ho
    split_ifs at hod ⊢ with hcd
    · subst hcd
      exact hunregistered o' ho' hod
    · exact h.unregistered d o' ho' hod

omit [DecidableEq Λ] in
/-- The task that runs ends: its connection is destroyed, or held by something else. -/
theorem Registry.release {c : ℕ} (h : Registry (some c) s)
    (hheld : ∀ o, s.objects[c]? = some o → o.destroyed = false →
      s.accepting = some c ∨ s.connections_.find? o.fd = some c ∨
        .removeConnectionInLoop c ∈ s.tasks_ s.mainLoop_ ∨
        .connectionDestroyed c ∈ s.tasks_ o.ioLoop) : Registry none s := by
  refine ⟨h.entry, fun d hd => h.alive d (.inr (hd.resolve_left nofun)), h.unique, ?_, h.fresh,
    h.establishing, h.once, h.after, h.unregistered, h.proper⟩
  intro d o ho hod
  rcases h.held d o ho hod with hr | hrest
  · obtain rfl := Option.some.inj hr
    exact .inr (hheld o ho hod)
  · exact .inr hrest

/-! ## The functions of the server -/

omit [DecidableEq Λ] in
/-- A connection whose task of being established is not in a queue is established. -/
theorem Registry.connectionEstablished (h : Registry running s) {c : ℕ}
    (hnot : ∀ loop, .connectionEstablished c ∉ s.tasks_ loop)
    (hdestroyed : ∀ o, s.objects[c]? = some o → o.destroyed = false) :
    Registry running (s.connectionEstablished c) := by
  refine h.modify (fun _ => rfl) (fun _ => rfl) (fun _ hp => hp) (fun _ _ => rfl) (fun _ hp => hp)
    (fun loop _ hmem => absurd hmem (hnot loop)) ?_
  intro p hp hd
  have hd : p.destroyed = true := hd
  simp [hdestroyed p hp] at hd

omit [DecidableEq Λ] in
/-- A connection is destroyed, and the task that destroys it ends. -/
theorem Registry.connectionDestroyed {c : ℕ} (h : Registry (some c) s)
    (hnot : ∀ loop, .connectionEstablished c ∉ s.tasks_ loop) :
    Registry none (s.connectionDestroyed c) := by
  have hmodify : Registry (some c) (s.connectionDestroyed c) :=
    h.modify (fun _ => rfl) (fun _ => rfl) (fun _ hp => hp) (fun _ _ => rfl) nofun
      (fun loop _ hmem => absurd hmem (hnot loop)) (fun _ _ _ => rfl)
  refine hmodify.release fun o ho hod => ?_
  obtain ⟨p, -, rfl⟩ := getElem?_modify ho
  simp at hod

/-- A connection leaves the map, and nothing else does: while it is alive nobody else has its
descriptor. -/
theorem Registry.removeConnectionInLoop (h : Registry running s) {c : ℕ} {o : Conn Λ}
    (ho : s.objects[c]? = some o) (hof : o.freed = false)
    (hrunning : running = none ∨ running = some c)
    (hnot : ∀ loop, .connectionEstablished c ∉ s.tasks_ loop) :
    Registry none (s.removeConnectionInLoop c o) := by
  have hfind : ∀ {d}, s.connections_.find? o.fd = some d → d = c := by
    intro d hd
    obtain ⟨p, hp, hfd⟩ := h.entry o.fd d hd
    obtain ⟨p', hp', hpf⟩ := h.alive d (.inr (.inr (.inl (exists_mem_entries_iff.mpr ⟨_, hd⟩))))
    obtain rfl : p = p' := Option.some.inj (hp.symm.trans hp')
    exact h.unique d c p o hp ho hpf hof hfd
  have herase : ∀ {fd d}, (s.connections_.erase o.fd).find? fd = some d →
      s.connections_.find? fd = some d := by
    intro fd d hd
    rw [SortedMap.find?_erase] at hd
    split_ifs at hd
    exact hd
  have herased : Registry (some c) { s with
      connections_ := s.connections_.erase o.fd
      changes := s.changes ++ [.erased c (s.connections_.find? o.fd)] } := by
    refine ⟨fun fd d hd => h.entry fd d (herase hd), ?_, h.unique, ?_, ?_, h.establishing, h.once,
      h.after, h.unregistered, ?_⟩
    · rintro d (hr | ha | he | ht)
      · obtain rfl := Option.some.inj hr
        exact ⟨o, ho, hof⟩
      · exact h.alive d (.inr (.inl ha))
      · obtain ⟨fd, hfd⟩ := exists_mem_entries_iff.mp he
        exact h.alive d (.inr (.inr (.inl (exists_mem_entries_iff.mpr ⟨fd, herase hfd⟩))))
      · exact h.alive d (.inr (.inr (.inr ht)))
    · intro d p hp hd
      rcases h.held d p hp hd with hr | ha | he | hremove | hdestroy
      · rcases hrunning with hnone | hsome
        · rw [hnone] at hr
          cases hr
        · exact .inl (hsome.symm.trans hr)
      · exact .inr (.inl ha)
      · by_cases hfd : p.fd = o.fd
        · exact .inl (congrArg some (hfind (hfd ▸ he)).symm)
        · refine .inr (.inr (.inl ?_))
          rwa [SortedMap.find?_erase, if_neg hfd]
      · exact .inr (.inr (.inr (.inl hremove)))
      · exact .inr (.inr (.inr (.inr hdestroy)))
    · intro d p hd hp
      have hfresh := h.fresh d p hd hp
      rw [SortedMap.find?_erase, hfresh, ite_self]
    · intro change hchange
      rcases List.mem_append.mp hchange with hold | hnew
      · exact h.proper change hold
      · obtain rfl := List.mem_singleton.mp hnew
        cases hfd : s.connections_.find? o.fd with
        | none => exact .inl rfl
        | some d => exact .inr (congrArg some (hfind hfd))
  have hqueued := herased.queueInLoop o.ioLoop (.connectionDestroyed c)
    ⟨o, ho, hof⟩ nofun (fun d hd => by
      rcases hd with hd | hd
      · cases hd
      · cases hd
        exact hnot)
  refine hqueued.release fun p hp _ => .inr (.inr (.inr ?_))
  obtain rfl : o = p := Option.some.inj (ho.symm.trans hp)
  exact mem_queueInLoop.mpr (.inr ⟨rfl, rfl⟩)

omit [DecidableEq Λ] in
/-- A new connection is created: its descriptor was not open, so there is no entry under it. -/
theorem Registry.accept (h : Registry none s) (haccepting : s.accepting = none) {sockfd : ℕ}
    (hopen : s.isOpen sockfd = false) (ioLoop : Λ) (next_ : ℕ) :
    Registry none { s with
      next_
      objects := s.objects ++ [{ fd := sockfd, ioLoop }]
      accepting := some s.objects.length } := by
  have hclosed : ∀ {d : ℕ} {p : Conn Λ}, s.objects[d]? = some p → p.freed = false →
      p.fd ≠ sockfd := by
    intro d p hp hpf hfd
    unfold isOpen at hopen
    rw [List.any_eq_false] at hopen
    have hnot := hopen p (List.mem_of_getElem? hp)
    simp [hpf, hfd] at hnot
  have hobject : ∀ {d : ℕ} {p : Conn Λ},
      (s.objects ++ [({ fd := sockfd, ioLoop } : Conn Λ)])[d]? = some p →
      s.objects[d]? = some p ∨ d = s.objects.length ∧ p = { fd := sockfd, ioLoop } := by
    intro d p hp
    rw [List.getElem?_append] at hp
    split_ifs at hp with hlt
    · exact .inl hp
    · right
      obtain ⟨hd, rfl⟩ := List.getElem?_eq_some_iff.mp hp
      simp only [List.length_cons, List.length_nil] at hd
      exact ⟨by omega, by simp⟩
  have hold : ∀ {d : ℕ} {p : Conn Λ}, s.objects[d]? = some p →
      (s.objects ++ [({ fd := sockfd, ioLoop } : Conn Λ)])[d]? = some p := by
    intro d p hp
    rw [List.getElem?_append_left (List.getElem?_eq_some_iff.mp hp).1, hp]
  have hlive : ∀ {d}, s.Referenced d → ∃ p, s.objects[d]? = some p ∧ p.freed = false :=
    fun hd => h.alive _ (.inr hd)
  refine ⟨?_, ?_, ?_, ?_, ?_, ?_, h.once, h.after, ?_, h.proper⟩
  · intro fd d hd
    obtain ⟨p, hp, hfd⟩ := h.entry fd d hd
    exact ⟨p, hold hp, hfd⟩
  · rintro d (hr | ha | hrest)
    · cases hr
    · obtain rfl := Option.some.inj ha
      exact ⟨{ fd := sockfd, ioLoop }, by simp, rfl⟩
    · obtain ⟨p, hp, hpf⟩ := hlive (.inr hrest)
      exact ⟨p, hold hp, hpf⟩
  · intro c d o p ho hp hof hpf hfds
    rcases hobject ho with ho | ⟨rfl, rfl⟩
    · rcases hobject hp with hp | ⟨rfl, rfl⟩
      · exact h.unique c d o p ho hp hof hpf hfds
      · exact absurd hfds (hclosed ho hof)
    · rcases hobject hp with hp | ⟨rfl, rfl⟩
      · exact absurd hfds.symm (hclosed hp hpf)
      · rfl
  · intro c o ho hod
    rcases hobject ho with ho | ⟨rfl, rfl⟩
    · rcases h.held c o ho hod with hr | ha | hrest
      · cases hr
      · simp [haccepting] at ha
      · exact .inr (.inr hrest)
    · exact .inr (.inl rfl)
  · intro c o hc ho
    obtain rfl := Option.some.inj hc
    rcases hobject ho with ho | ⟨-, rfl⟩
    · have hlt := (List.getElem?_eq_some_iff.mp ho).1
      omega
    · by_contra hne
      obtain ⟨d, hd⟩ := Option.ne_none_iff_exists'.mp hne
      obtain ⟨p, hp, hfd⟩ := h.entry sockfd d hd
      obtain ⟨p', hp', hpf⟩ := hlive (.inr (.inl (exists_mem_entries_iff.mpr ⟨_, hd⟩)))
      obtain rfl : p = p' := Option.some.inj (hp.symm.trans hp')
      exact hclosed hp hpf hfd
  · intro loop c o hmem ho
    obtain ⟨p, hp, -⟩ := hlive (.inr (.inr ⟨loop, _, hmem, rfl⟩))
    obtain rfl : p = o := Option.some.inj ((hold hp).symm.trans ho)
    exact h.establishing loop c p hmem hp
  · intro c o ho hod
    rcases hobject ho with ho | ⟨rfl, rfl⟩
    · exact h.unregistered c o ho hod
    · cases hod

omit [DecidableEq Λ] in
/-- The new connection is stored, under a descriptor without an entry. -/
theorem Registry.store (h : Registry none s) {c : ℕ} {o : Conn Λ} (hc : s.accepting = some c)
    (ho : s.objects[c]? = some o) : Registry none (s.store o.fd c) := by
  have hfresh := h.fresh c o hc ho
  have hfind : ∀ {fd d}, (s.connections_.insert o.fd c).find? fd = some d →
      fd = o.fd ∧ d = c ∨ s.connections_.find? fd = some d := by
    intro fd d hd
    rw [SortedMap.find?_insert] at hd
    split_ifs at hd with hfd
    · exact .inl ⟨hfd, (Option.some.inj hd).symm⟩
    · exact .inr hd
  refine ⟨?_, ?_, h.unique, ?_, nofun, h.establishing, h.once, h.after, h.unregistered, ?_⟩
  · intro fd d hd
    rcases hfind hd with ⟨rfl, rfl⟩ | hold
    · exact ⟨o, ho, rfl⟩
    · exact h.entry fd d hold
  · rintro d (hr | ha | he | ht)
    · cases hr
    · cases ha
    · obtain ⟨fd, hfd⟩ := exists_mem_entries_iff.mp he
      rcases hfind hfd with ⟨-, rfl⟩ | hold
      · exact h.alive d (.inr (.inl hc))
      · exact h.alive d (.inr (.inr (.inl (exists_mem_entries_iff.mpr ⟨fd, hold⟩))))
    · exact h.alive d (.inr (.inr (.inr ht)))
  · intro d p hp hd
    have hstored : (s.connections_.insert o.fd c).find? o.fd = some c := by
      rw [SortedMap.find?_insert, if_pos rfl]
    rcases h.held d p hp hd with hr | ha | he | hrest
    · cases hr
    · obtain rfl : c = d := Option.some.inj (hc.symm.trans ha)
      obtain rfl : o = p := Option.some.inj (ho.symm.trans hp)
      exact .inr (.inr (.inl hstored))
    · refine .inr (.inr (.inl ?_))
      have hfd : p.fd ≠ o.fd := by
        intro hfd
        rw [hfd, hfresh] at he
        cases he
      show (s.connections_.insert o.fd c).find? p.fd = some d
      rwa [SortedMap.find?_insert, if_neg hfd]
    · exact .inr (.inr (.inr hrest))
  · intro change hchange
    rcases List.mem_append.mp hchange with hold | hnew
    · exact h.proper change hold
    · obtain rfl := List.mem_singleton.mp hnew
      exact hfresh

/-- `onNewConnection` keeps the invariant. -/
theorem Registry.onNewConnection (h : Registry none s) (haccepting : s.accepting = none)
    {sockfd : ℕ} (hopen : s.isOpen sockfd = false) : Registry none (s.onNewConnection sockfd) := by
  unfold TcpServer.onNewConnection
  dsimp only
  obtain ⟨ioLoop, next_⟩ := s.getNextLoop
  have haccept := h.accept haccepting hopen ioLoop next_
  -- nothing in the loops refers to the new connection yet
  have hnone : ∀ {loop task}, task ∈ s.tasks_ loop → task.conn ≠ s.objects.length := by
    intro loop task htask heq
    obtain ⟨p, hp, -⟩ := h.alive task.conn (.inr (.inr (.inr ⟨loop, task, htask, rfl⟩)))
    have hlt := (List.getElem?_eq_some_iff.mp hp).1
    omega
  have hnew : (s.objects ++ [({ fd := sockfd, ioLoop } : Conn Λ)])[s.objects.length]? =
      some { fd := sockfd, ioLoop } := by
    simp
  split_ifs with hmain
  · refine haccept.connectionEstablished (fun loop hmem => hnone hmem rfl) fun o ho => ?_
    obtain rfl := Option.some.inj (hnew.symm.trans ho)
    rfl
  · refine haccept.queueInLoop ioLoop _ ⟨_, hnew, rfl⟩ ?_ ?_
    · intro c hc
      obtain rfl : s.objects.length = c := by simpa using hc
      refine ⟨fun o ho => ?_, fun loop => ⟨fun hmem => hnone hmem rfl, fun hmem => hnone hmem rfl,
        fun hmem => hnone hmem rfl⟩⟩
      obtain rfl := Option.some.inj (hnew.symm.trans ho)
      exact ⟨rfl, rfl, rfl⟩
    · rintro c (hc | hc) <;> cases hc

/-- The close callback keeps the invariant. -/
theorem Registry.close (h : Registry none s) {c : ℕ} {o : Conn Λ} (ho : s.objects[c]? = some o)
    (hregistered : o.registered = true) : Registry none (s.removeConnection c o) := by
  have hnot : ∀ loop, .connectionEstablished c ∉ s.tasks_ loop := by
    intro loop hmem
    have hno := (h.establishing loop c o hmem ho).2.1
    simp [hregistered] at hno
  -- a registered connection is not destroyed, so something refers to it
  have halive : o.freed = false := by
    have hd : o.destroyed = false := by
      by_contra hd
      have hno := h.unregistered c o ho (by simpa using hd)
      simp [hregistered] at hno
    have href : s.Referenced c := by
      rcases h.held c o ho hd with hr | ha | he | hremove | hdestroy
      · cases hr
      · exact .inl ha
      · exact .inr (.inl (exists_mem_entries_iff.mpr ⟨_, he⟩))
      · exact .inr (.inr ⟨_, _, hremove, rfl⟩)
      · exact .inr (.inr ⟨_, _, hdestroy, rfl⟩)
    obtain ⟨p, hp, hpf⟩ := h.alive c (.inr href)
    obtain rfl : o = p := Option.some.inj (ho.symm.trans hp)
    exact hpf
  unfold removeConnection
  split_ifs
  · exact h.removeConnectionInLoop ho halive (.inl rfl) hnot
  · refine h.queueInLoop _ _ ⟨o, ho, halive⟩ nofun fun d hd => ?_
    rcases hd with hd | hd
    · cases hd
      exact hnot
    · cases hd

/-- A task that runs keeps the invariant. -/
theorem Registry.runTask (h : Registry none s) {loop : Λ} {task : Task} {tasks : List Task}
    (htasks : s.tasks_ loop = task :: tasks) :
    Registry none (({ s with tasks_ := Function.update s.tasks_ loop tasks } :
      TcpServer Λ).perform task) := by
  have htask : task ∈ s.tasks_ loop := htasks ▸ List.mem_cons_self
  cases task with
  | connectionEstablished c =>
    refine (h.pop htasks (.inr ⟨rfl, rfl⟩)).connectionEstablished ?_ fun o ho =>
      (h.establishing loop c o htask ho).2.2
    intro loop' hmem
    obtain ⟨o, ho, -⟩ := h.alive c (.inr (.inr (.inr ⟨loop, _, htask, rfl⟩)))
    have hloop := (h.establishing loop c o htask ho).1
    have hloop' := (h.establishing loop' c o (mem_pop htasks hmem) ho).1
    obtain rfl : loop = loop' := hloop.symm.trans hloop'
    have honce := h.once loop c
    rw [htasks, List.count_cons_self] at honce
    have hmem : .connectionEstablished c ∈ Function.update s.tasks_ loop tasks loop := hmem
    rw [Function.update_self] at hmem
    have hpos := List.count_pos_iff.mpr hmem
    omega
  | removeConnectionInLoop c =>
    have hpop : Registry (some c) { s with tasks_ := Function.update s.tasks_ loop tasks } :=
      h.pop htasks (.inl rfl)
    obtain ⟨o, ho, hof⟩ := hpop.alive c (.inl rfl)
    have ho : s.objects[c]? = some o := ho
    have hperform : ({ s with tasks_ := Function.update s.tasks_ loop tasks } :
        TcpServer Λ).perform (.removeConnectionInLoop c) =
        ({ s with tasks_ := Function.update s.tasks_ loop tasks } :
          TcpServer Λ).removeConnectionInLoop c o := by
      simp only [perform, ho]
    rw [hperform]
    exact hpop.removeConnectionInLoop ho hof (.inr rfl) fun loop' hmem =>
      h.after loop c (.inl htask) loop' (mem_pop htasks hmem)
  | connectionDestroyed c =>
    exact (h.pop htasks (.inl rfl)).connectionDestroyed fun loop' hmem =>
      h.after loop c (.inr htask) loop' (mem_pop htasks hmem)

/-! ## Runs -/

/-- **One step keeps the invariant.** -/
theorem registry_step [Fintype Λ] {s' : TcpServer Λ} {a : Step Λ} (hs' : s.step a = some s')
    (h : Registry none s) : Registry none s' := by
  cases a with
  | accept sockfd =>
    simp only [step, assert_eq_some_iff, Option.some.injEq] at hs'
    obtain ⟨⟨haccepting, hopen⟩, rfl⟩ := hs'
    exact h.onNewConnection haccepting hopen
  | store =>
    simp only [step] at hs'
    split at hs'
    · cases hs'
    · rename_i c hc
      split at hs'
      · cases hs'
      · rename_i o ho
        exact Option.some.inj hs' ▸ h.store hc ho
  | close c =>
    simp only [step] at hs'
    split at hs'
    · cases hs'
    · rename_i o ho
      obtain ⟨⟨hregistered, -⟩, hs'⟩ := assert_eq_some_iff.mp hs'
      exact Option.some.inj hs' ▸ h.close ho hregistered
  | runTask loop =>
    simp only [step, assert_eq_some_iff] at hs'
    obtain ⟨-, hs'⟩ := hs'
    split at hs'
    · cases hs'
    · rename_i task tasks htasks
      exact Option.some.inj hs' ▸ h.runTask htasks
  | free c =>
    simp only [step, assert_eq_some_iff, Option.some.injEq] at hs'
    obtain ⟨hfree, rfl⟩ := hs'
    refine h.modify (fun _ => rfl) (fun _ => rfl) (by simp) ?_ (fun _ hp => hp) ?_ ?_
    · rintro (hr | href)
      · cases hr
      · exact absurd href hfree
    · exact fun loop p hmem hp => (h.establishing loop c p hmem hp).2
    · exact fun p hp hd => h.unregistered c p hp hd

/-- **The map of connections is sound.** After any sequence of accepted connections, close callbacks
and tasks of the loops, with descriptors that the kernel gives out again once they are closed: an
entry of the map leads to a connection with its descriptor; no insertion has overwritten an entry
and no removal has erased the entry of another connection; and a connection to which nothing refers
has been destroyed, and its channel is not registered. -/
theorem registry_sound [Fintype Λ] {mainLoop_ : Λ} {subLoops_ : List Λ} {steps : List (Step Λ)}
    (hrun : run step { mainLoop_, subLoops_ } steps = some s) :
    (∀ fd c, s.connections_.find? fd = some c → ∃ o, s.objects[c]? = some o ∧ o.fd = fd) ∧
    (∀ change ∈ s.changes, change.Proper) ∧
    (∀ c o, s.objects[c]? = some o → ¬ s.Referenced c →
      o.destroyed = true ∧ o.registered = false) := by
  have h := run_invariant registry_step hrun (registry_new mainLoop_ subLoops_)
  refine ⟨h.entry, h.proper, fun c o ho hfree => ?_⟩
  have hd : o.destroyed = true := by
    by_contra hd
    rcases h.held c o ho (by simpa using hd) with hr | ha | he | hremove | hdestroy
    · cases hr
    · exact hfree (.inl ha)
    · exact hfree (.inr (.inl (exists_mem_entries_iff.mpr ⟨_, he⟩)))
    · exact hfree (.inr (.inr ⟨_, _, hremove, rfl⟩))
    · exact hfree (.inr (.inr ⟨_, _, hdestroy, rfl⟩))
  exact ⟨hd, h.unregistered c o ho hd⟩

/-- A connection of a sub-loop is closed twice, and its descriptor is accepted again when it is
freed. -/
theorem registry_sound_reused : ∃ s : TcpServer Bool,
    run step { mainLoop_ := false, subLoops_ := [true] } [.accept 7, .runTask true, .close 0,
      .store, .close 0, .runTask false, .runTask true, .runTask false, .runTask true, .free 0,
      .accept 7, .store] = some s ∧
    s.connections_.find? 7 = some 1 ∧ s.changes = [.inserted 0 none, .erased 0 (some 0),
      .erased 0 none, .inserted 1 none] ∧ ∀ change ∈ s.changes, change.Proper := by
  have hrun : (run step ({ mainLoop_ := false, subLoops_ := [true] } : TcpServer Bool)
      [.accept 7, .runTask true, .close 0, .store, .close 0, .runTask false, .runTask true,
        .runTask false, .runTask true, .free 0, .accept 7, .store]).map
      (fun s => (s.connections_.find? 7, s.changes)) = some (some 1, [.inserted 0 none,
        .erased 0 (some 0), .erased 0 none, .inserted 1 none]) := by
    decide
  obtain ⟨s, hs, heq⟩ := Option.map_eq_some_iff.mp hrun
  obtain ⟨hfind, hchanges⟩ := Prod.mk.inj heq
  exact ⟨s, hs, hfind, hchanges, (registry_sound hs).2.1⟩

end

end LouisNet.Net.TcpServer
