import LouisNet.Net.TcpServerRegistry
import LouisNet.Reactor.EventLoopThreadPool

set_option relaxedAutoImplicit false
set_option autoImplicit false

/-!
# The connections in their loops

How a server spreads its connections over the loops, and how it gets rid of them. Whatever the loops
do between two calls of `accept`, the connections are given to the sub-loops in turn. And a
connection that was closed does not stay: the tasks that remove and destroy it are only so many, and
when they are done the map has no entry for it and its descriptor is closed.

## Main definitions

* `LouisNet.Net.TcpServer.pool` — the `EventLoopThreadPool` of a server.
* `LouisNet.Net.TcpServer.InTurn` — the connections are in the loops in turn.
* `LouisNet.Net.TcpServer.Closing` — a connection that was closed will be removed.

## Main results

* `LouisNet.Net.TcpServer.getNextLoop_pool` — the server uses its pool.
* `LouisNet.Net.TcpServer.balanced` — no sub-loop has more connections than another, but for one.
* `LouisNet.Net.TcpServer.freed_of_stuck` — connections that were closed are freed.
-/

namespace LouisNet.Net.TcpServer

open Lib Reactor

variable {Λ : Type*} [DecidableEq Λ] {s s' : TcpServer Λ} {mainLoop_ : Λ} {subLoops_ : List Λ}

/-! ## The loops of the connections -/

/-- The `EventLoopThreadPool` of a server, whose threads were all started. -/
def pool (s : TcpServer Λ) : EventLoopThreadPool Λ where
  mainLoop_ := s.mainLoop_
  subLoops_ := s.subLoops_
  threadNum_ := s.subLoops_.length
  next_ := s.next_

omit [DecidableEq Λ] in
/-- **The server uses its pool**, and leaves the index where the pool leaves it. -/
theorem getNextLoop_pool (hnext : s.subLoops_ ≠ [] → s.next_ < s.subLoops_.length) :
    s.pool.getNextLoop =
      some (s.getNextLoop.1, ({ s with next_ := s.getNextLoop.2 } : TcpServer Λ).pool) := by
  unfold EventLoopThreadPool.getNextLoop getNextLoop
  by_cases hnil : s.subLoops_ = []
  · simp [pool, hnil]
  · have hlt := hnext hnil
    have hpos := List.length_pos_iff.mpr hnil
    rw [if_neg (by simp only [pool]; omega), if_neg hnil]
    simp only [pool, List.getElem?_eq_getElem hlt, Option.map_some, List.getD_eq_getElem?_getD,
      Option.getD_some, ge_iff_le]
    congr 3
    exact if_congr (by omega) rfl rfl

/-- **The connections are in the loops in turn**, and so will be the next one. -/
structure InTurn (mainLoop_ : Λ) (subLoops_ : List Λ) (s : TcpServer Λ) : Prop where
  main : s.mainLoop_ = mainLoop_
  sub : s.subLoops_ = subLoops_
  loops : s.objects.map Conn.ioLoop = (List.range s.objects.length).map fun c =>
    subLoops_.getD (c % subLoops_.length) mainLoop_
  next : subLoops_ ≠ [] → s.next_ = s.objects.length % subLoops_.length

omit [DecidableEq Λ] in
/-- A change of a connection leaves it in its loop. -/
theorem InTurn.modify (h : InTurn mainLoop_ subLoops_ s) (c : ℕ) {f : Conn Λ → Conn Λ}
    (hf : ∀ o, (f o).ioLoop = o.ioLoop) : InTurn mainLoop_ subLoops_ (s.modify c f) := by
  have hmap : (s.objects.modify c f).map Conn.ioLoop = s.objects.map Conn.ioLoop := by
    apply List.ext_getElem?
    intro d
    rw [List.getElem?_map, List.getElem?_map, List.getElem?_modify]
    cases s.objects[d]? with
    | none => rfl
    | some o =>
      show some (if c = d then f o else o).ioLoop = some o.ioLoop
      split_ifs
      · rw [hf]
      · rfl
  refine ⟨h.main, h.sub, ?_, ?_⟩
  · show (s.objects.modify c f).map Conn.ioLoop = _
    rw [hmap]
    simpa [TcpServer.modify] using h.loops
  · intro hne
    simpa [TcpServer.modify] using h.next hne

/-- Counting on, around. -/
theorem succ_mod {a n : ℕ} (hn : 0 < n) :
    (a + 1) % n = if n ≤ a % n + 1 then 0 else a % n + 1 := by
  have hlt := Nat.mod_lt a hn
  have ha := Nat.div_add_mod a n
  split_ifs with hlast
  · rw [show a + 1 = n * (a / n + 1) by rw [Nat.mul_succ]; omega, Nat.mul_mod_right]
  · rw [show a + 1 = n * (a / n) + (a % n + 1) by omega, Nat.mul_add_mod,
      Nat.mod_eq_of_lt (by omega)]

/-- A new connection is given to the next loop. -/
theorem InTurn.onNewConnection (h : InTurn mainLoop_ subLoops_ s) (sockfd : ℕ) :
    InTurn mainLoop_ subLoops_ (s.onNewConnection sockfd) := by
  have hloop : s.getNextLoop.1 =
      subLoops_.getD (s.objects.length % subLoops_.length) mainLoop_ := by
    unfold getNextLoop
    rw [h.main, h.sub]
    by_cases hnil : subLoops_ = []
    · simp [hnil]
    · rw [if_neg hnil, h.next hnil]
  have hnext : subLoops_ ≠ [] →
      s.getNextLoop.2 = (s.objects.length + 1) % subLoops_.length := by
    intro hne
    unfold getNextLoop
    rw [h.main, h.sub, if_neg hne, h.next hne, succ_mod (List.length_pos_iff.mpr hne)]
  have hadded : InTurn mainLoop_ subLoops_ ({ s with
      next_ := s.getNextLoop.2
      objects := s.objects ++ [{ fd := sockfd, ioLoop := s.getNextLoop.1 }]
      accepting := some s.objects.length } : TcpServer Λ) := by
    refine ⟨h.main, h.sub, ?_, fun hne => ?_⟩
    · simp only [List.map_append, List.length_append, List.map_cons, List.map_nil, h.loops,
        List.length_cons, List.length_nil, Nat.zero_add, List.range_succ, hloop]
    · simpa using hnext hne
  unfold TcpServer.onNewConnection
  dsimp only
  split_ifs
  · exact hadded.modify s.objects.length fun _ => rfl
  · exact ⟨hadded.main, hadded.sub, hadded.loops, hadded.next⟩

/-- **One step leaves the connections in turn.** -/
theorem InTurn.step [Fintype Λ] {a : Step Λ} (hs : s.step a = some s')
    (h : InTurn mainLoop_ subLoops_ s) : InTurn mainLoop_ subLoops_ s' := by
  have hremove : ∀ (t : TcpServer Λ) (c : ℕ) (o : Conn Λ), InTurn mainLoop_ subLoops_ t →
      InTurn mainLoop_ subLoops_ (t.removeConnectionInLoop c o) :=
    fun t c o ht => ⟨ht.main, ht.sub, ht.loops, ht.next⟩
  cases a with
  | accept sockfd =>
    simp only [TcpServer.step, assert_eq_some_iff, Option.some.injEq] at hs
    obtain ⟨-, rfl⟩ := hs
    exact h.onNewConnection sockfd
  | store =>
    simp only [TcpServer.step] at hs
    split at hs
    · cases hs
    · split at hs
      · cases hs
      · obtain rfl := Option.some.inj hs
        exact ⟨h.main, h.sub, h.loops, h.next⟩
  | close c =>
    simp only [TcpServer.step] at hs
    split at hs
    · cases hs
    · rename_i o ho
      obtain ⟨-, hs⟩ := assert_eq_some_iff.mp hs
      obtain rfl := Option.some.inj hs
      unfold removeConnection
      split_ifs
      · exact hremove s c o h
      · exact ⟨h.main, h.sub, h.loops, h.next⟩
  | runTask loop =>
    simp only [TcpServer.step, assert_eq_some_iff] at hs
    obtain ⟨-, hs⟩ := hs
    split at hs
    · cases hs
    · rename_i task tasks htasks
      obtain rfl := Option.some.inj hs
      have hpopped : InTurn mainLoop_ subLoops_
          ({ s with tasks_ := Function.update s.tasks_ loop tasks } : TcpServer Λ) :=
        ⟨h.main, h.sub, h.loops, h.next⟩
      cases task with
      | connectionEstablished c => exact hpopped.modify c fun _ => rfl
      | connectionDestroyed c => exact hpopped.modify c fun _ => rfl
      | removeConnectionInLoop c =>
        cases ho : s.objects[c]? with
        | none => simpa only [perform, ho] using hpopped
        | some o => simpa only [perform, ho] using hremove _ c o hpopped
  | free c =>
    simp only [TcpServer.step, assert_eq_some_iff, Option.some.injEq] at hs
    obtain ⟨-, rfl⟩ := hs
    exact h.modify c fun _ => rfl

/-- How often a number is counted, around. -/
theorem countP_mod {n i : ℕ} (hi : i < n) (m : ℕ) :
    (List.range m).countP (fun c => c % n = i) = m / n + if i < m % n then 1 else 0 := by
  have hcount : (List.range m).countP (fun c => c % n = i) = m.count (· ≡ i [MOD n]) := by
    rw [Nat.count_eq_card_filter_range, List.countP_eq_length_filter]
    simp only [Nat.ModEq, Nat.mod_eq_of_lt hi]
    rw [← List.toFinset_card_of_nodup (List.nodup_range.filter _)]
    congr 1
    ext c
    simp
  rw [hcount, Nat.count_modEq_card _ (by omega), Nat.mod_eq_of_lt hi]

/-- **The connections are spread evenly.** In every run, in whatever order connections are accepted,
closed, removed and freed: each connection is in the sub-loop whose turn it was, or in the main loop
if there are no others; so no sub-loop was ever given more connections than another, but for one. -/
theorem balanced [Fintype Λ] {steps : List (Step Λ)}
    (hrun : run step { mainLoop_, subLoops_ } steps = some s) :
    (∀ c o, s.objects[c]? = some o →
      o.ioLoop = subLoops_.getD (c % subLoops_.length) mainLoop_) ∧
    (subLoops_.Nodup → ∀ a ∈ subLoops_, ∀ b ∈ subLoops_,
      s.objects.countP (fun o => o.ioLoop = a) ≤ s.objects.countP (fun o => o.ioLoop = b) + 1) := by
  have hinit : InTurn mainLoop_ subLoops_ ({ mainLoop_, subLoops_ } : TcpServer Λ) :=
    ⟨rfl, rfl, rfl, fun _ => (Nat.zero_mod _).symm⟩
  have h := run_invariant (fun hs h => InTurn.step hs h) hrun hinit
  constructor
  · intro c o ho
    have hloop := congrArg (fun l : List Λ => l[c]?) h.loops
    obtain ⟨hlt, rfl⟩ := List.getElem?_eq_some_iff.mp ho
    simpa [hlt] using hloop
  · intro hnodup a ha b hb
    have hcount : ∀ x ∈ subLoops_, ∃ i < subLoops_.length,
        s.objects.countP (fun o => o.ioLoop = x) = s.objects.length / subLoops_.length +
          if i < s.objects.length % subLoops_.length then 1 else 0 := by
      intro x hx
      obtain ⟨i, hi, rfl⟩ := List.getElem_of_mem hx
      refine ⟨i, hi, ?_⟩
      rw [← countP_mod hi]
      have hmap : s.objects.countP (fun o => o.ioLoop = subLoops_[i]) =
          (s.objects.map Conn.ioLoop).countP (fun l => l = subLoops_[i]) := by
        rw [List.countP_map]
        rfl
      rw [hmap, h.loops, List.countP_map]
      apply List.countP_congr
      intro c _
      have hlt := Nat.mod_lt c (Nat.zero_lt_of_lt hi)
      simp [List.getD_eq_getElem?_getD, hlt, hnodup.getElem_inj_iff]
    obtain ⟨i, -, hcount_a⟩ := hcount a ha
    obtain ⟨j, -, hcount_b⟩ := hcount b hb
    rw [hcount_a, hcount_b]
    split_ifs <;> omega

/-- Three connections are accepted, and the first is closed and freed: two sub-loops have two and
one. -/
theorem balanced_three : ∃ s : TcpServer (Fin 3),
    run step ({ mainLoop_ := 0, subLoops_ := [1, 2] } : TcpServer (Fin 3))
      [.accept 7, .store, .runTask 1, .accept 8, .store, .close 0, .runTask 0, .runTask 1, .free 0,
        .accept 7, .store] = some s ∧
    s.objects.countP (fun o => o.ioLoop = 1) = 2 ∧
    s.objects.countP (fun o => o.ioLoop = 1) ≤ s.objects.countP (fun o => o.ioLoop = 2) + 1 := by
  have hrun : (run step ({ mainLoop_ := 0, subLoops_ := [1, 2] } : TcpServer (Fin 3))
      [.accept 7, .store, .runTask 1, .accept 8, .store, .close 0, .runTask 0, .runTask 1, .free 0,
        .accept 7, .store]).map (fun s => s.objects.countP (fun o => o.ioLoop = 1)) = some 2 := by
    decide
  obtain ⟨s, hs, hcount⟩ := Option.map_eq_some_iff.mp hrun
  exact ⟨s, hs, hcount, (balanced hs).2 (by decide) 1 (by decide) 2 (by decide)⟩

/-! ## Connections that are closed -/

/-- The connections whose close callback was invoked. -/
def close (closed : List ℕ) (_ : TcpServer Λ) : Step Λ → List ℕ
  | .close c => closed ++ [c]
  | _ => closed

/-- **A connection that was closed will be removed**: the task that removes it waits in the main
loop, or it is not in the map and does not get there any more. -/
def Closing (c : ℕ) (s : TcpServer Λ) : Prop :=
  c < s.objects.length ∧
    (.removeConnectionInLoop c ∈ s.tasks_ s.mainLoop_ ∨
      s.accepting ≠ some c ∧ ∀ fd, s.connections_.find? fd ≠ some c)

/-- A connection is removed from the map; others only gain. -/
theorem Closing.removeConnectionInLoop {c d : ℕ} {o : Conn Λ}
    (hentry : ∀ fd c, s.connections_.find? fd = some c → ∃ o, s.objects[c]? = some o ∧ o.fd = fd)
    (ho : s.objects[d]? = some o) (h : c = d ∧ s.accepting = none ∨ Closing c s) :
    Closing c (s.removeConnectionInLoop d o) := by
  have herase : ∀ fd, (s.connections_.erase o.fd).find? fd =
      if fd = o.fd then none else s.connections_.find? fd :=
    fun fd => SortedMap.find?_erase s.connections_ o.fd fd
  have hmono : ∀ task loop, task ∈ s.tasks_ loop →
      task ∈ (s.removeConnectionInLoop d o).tasks_ loop := by
    intro task loop hmem
    exact mem_queueInLoop.mpr (.inl hmem)
  rcases h with ⟨rfl, haccepting⟩ | ⟨hlt, hremove | ⟨haccept, hgone⟩⟩
  · refine ⟨(List.getElem?_eq_some_iff.mp ho).1, .inr ⟨?_, fun fd hfd => ?_⟩⟩
    · show s.accepting ≠ some c
      rw [haccepting]
      simp
    · have hfd' : (s.connections_.erase o.fd).find? fd = some c := hfd
      rw [herase] at hfd'
      split_ifs at hfd' with hne
      obtain ⟨o', ho', hfd''⟩ := hentry fd c hfd'
      obtain rfl : o = o' := Option.some.inj (ho.symm.trans ho')
      exact hne hfd''.symm
  · exact ⟨hlt, .inl (hmono _ _ hremove)⟩
  · refine ⟨hlt, .inr ⟨haccept, fun fd hfd => ?_⟩⟩
    have hfd' : (s.connections_.erase o.fd).find? fd = some c := hfd
    rw [herase] at hfd'
    split_ifs at hfd'
    exact hgone fd hfd'

omit [DecidableEq Λ] in
/-- A change of another connection, or of this one. -/
theorem Closing.modify {c : ℕ} (h : Closing c s) (d : ℕ) (f : Conn Λ → Conn Λ) :
    Closing c (s.modify d f) := by
  refine ⟨?_, h.2⟩
  show c < (s.objects.modify d f).length
  rw [List.length_modify]
  exact h.1

/-- One more task waits. -/
theorem Closing.queueInLoop {c : ℕ} (h : Closing c s) (loop : Λ) (task : Task) :
    Closing c (s.queueInLoop loop task) :=
  ⟨h.1, h.2.imp_left fun hmem => mem_queueInLoop.mpr (.inl hmem)⟩

/-- **A step forgets no connection that was closed.** -/
theorem Closing.step [Fintype Λ] {a : Step Λ} {c : ℕ} (hs : s.step a = some s')
    (hreg : Registry none s) (h : a = .close c ∨ Closing c s) : Closing c s' := by
  cases a with
  | accept sockfd =>
    simp only [TcpServer.step, assert_eq_some_iff, Option.some.injEq] at hs
    obtain ⟨-, rfl⟩ := hs
    obtain ⟨hlt, hcases⟩ := h.resolve_left (by simp)
    have hadded : Closing c ({ s with
        next_ := s.getNextLoop.2
        objects := s.objects ++ [{ fd := sockfd, ioLoop := s.getNextLoop.1 }]
        accepting := some s.objects.length } : TcpServer Λ) := by
      refine ⟨by simp only [List.length_append]; omega, hcases.imp_right fun hgone => ?_⟩
      exact ⟨by simpa using Nat.ne_of_gt hlt, hgone.2⟩
    unfold TcpServer.onNewConnection
    dsimp only
    split_ifs
    · exact hadded.modify _ _
    · exact hadded.queueInLoop _ _
  | store =>
    obtain ⟨hlt, hcases⟩ := h.resolve_left (by simp)
    simp only [TcpServer.step] at hs
    split at hs
    · cases hs
    · rename_i d hd
      split at hs
      · cases hs
      · rename_i o ho
        obtain rfl := Option.some.inj hs
        refine ⟨hlt, hcases.imp_right fun hgone => ⟨by simp [TcpServer.store], fun fd hfd => ?_⟩⟩
        have hfd' : (s.connections_.insert o.fd d).find? fd = some c := hfd
        rw [SortedMap.find?_insert] at hfd'
        split_ifs at hfd' with heq
        · exact hgone.1 (hd.trans hfd')
        · exact hgone.2 fd hfd'
  | close d =>
    simp only [TcpServer.step] at hs
    split at hs
    · cases hs
    · rename_i o ho
      obtain ⟨⟨-, haccepting⟩, hs⟩ := assert_eq_some_iff.mp hs
      obtain rfl := Option.some.inj hs
      have hd : c = d ∨ Closing c s := h.imp_left fun heq => (Step.close.inj heq).symm
      unfold removeConnection
      split_ifs with hmain
      · exact Closing.removeConnectionInLoop hreg.entry ho
          (hd.imp_left fun heq => ⟨heq, haccepting hmain⟩)
      · rcases hd with rfl | hclosing
        · refine ⟨(List.getElem?_eq_some_iff.mp ho).1, .inl ?_⟩
          exact mem_queueInLoop.mpr (.inr ⟨rfl, rfl⟩)
        · exact hclosing.queueInLoop _ _
  | runTask loop =>
    obtain ⟨hlt, hcases⟩ := h.resolve_left (by simp)
    simp only [TcpServer.step, assert_eq_some_iff] at hs
    obtain ⟨haccepting, hs⟩ := hs
    split at hs
    · cases hs
    · rename_i task tasks htasks
      obtain rfl := Option.some.inj hs
      have hpopped : task = .removeConnectionInLoop c ∧ loop = s.mainLoop_ ∨
          Closing c ({ s with tasks_ := Function.update s.tasks_ loop tasks } : TcpServer Λ) := by
        rcases hcases with hremove | hgone
        · by_cases hmain : loop = s.mainLoop_
          · rcases mem_or_eq_of_pop htasks hremove with hmem | heq
            · exact .inr ⟨hlt, .inl hmem⟩
            · exact .inl ⟨heq.symm, hmain⟩
          · refine .inr ⟨hlt, .inl ?_⟩
            show _ ∈ Function.update s.tasks_ loop tasks s.mainLoop_
            rwa [Function.update_of_ne (Ne.symm hmain)]
        · exact .inr ⟨hlt, .inr hgone⟩
      cases task with
      | connectionEstablished d => exact (hpopped.resolve_left (by simp)).modify d _
      | connectionDestroyed d => exact (hpopped.resolve_left (by simp)).modify d _
      | removeConnectionInLoop d =>
        obtain ⟨o, ho, -⟩ := hreg.alive d
          (.inr (.inr (.inr ⟨loop, _, htasks ▸ List.mem_cons_self, rfl⟩)))
        have hperform : ({ s with tasks_ := Function.update s.tasks_ loop tasks } :
            TcpServer Λ).perform (.removeConnectionInLoop d) =
            ({ s with tasks_ := Function.update s.tasks_ loop tasks } :
              TcpServer Λ).removeConnectionInLoop d o := by
          simp only [perform, ho]
        rw [hperform]
        refine Closing.removeConnectionInLoop (s := { s with
          tasks_ := Function.update s.tasks_ loop tasks }) hreg.entry ho ?_
        exact hpopped.imp_left fun heq =>
          ⟨(Task.removeConnectionInLoop.inj heq.1).symm, haccepting heq.2⟩
  | free d =>
    simp only [TcpServer.step, assert_eq_some_iff, Option.some.injEq] at hs
    obtain ⟨-, rfl⟩ := hs
    exact (h.resolve_left (by simp)).modify d _

/-! ## The work that is left -/

/-- A step that the loops take by themselves: no connection is accepted, no close callback invoked,
and no connection freed twice. -/
def Internal (s : TcpServer Λ) : Step Λ → Prop
  | .store => True
  | .runTask _ => True
  | .free c => ∃ o, s.objects[c]? = some o ∧ o.freed = false
  | _ => False

instance (s : TcpServer Λ) : (a : Step Λ) → Decidable (s.Internal a)
  | .store | .runTask _ => inferInstanceAs (Decidable True)
  | .accept _ | .close _ => inferInstanceAs (Decidable False)
  | .free c => decidable_of_iff ((s.objects[c]?.any fun o => !o.freed) = true) (by
      simp [Internal, Option.any_eq_true])

/-- What a task leads to. -/
def taskWeight : Task → ℕ
  | .removeConnectionInLoop _ => 2
  | _ => 1

/-- What waits in a loop. -/
def weight (tasks : List Task) : ℕ := (tasks.map taskWeight).sum

/-- **What is left to do**: the tasks, a connection that is still to be stored, and the connections
that are still to be freed. -/
def work [Fintype Λ] (s : TcpServer Λ) : ℕ :=
  ∑ loop, weight (s.tasks_ loop) + s.accepting.toList.length +
    s.objects.countP fun o => !o.freed

omit [DecidableEq Λ] in
/-- A change of a connection that does not bring it back. -/
theorem countP_modify_le (l : List (Conn Λ)) (c : ℕ) {f : Conn Λ → Conn Λ}
    (hf : ∀ o, o.freed = true → (f o).freed = true) :
    (l.modify c f).countP (fun o => !o.freed) ≤ l.countP fun o => !o.freed := by
  induction l generalizing c with
  | nil => simp
  | cons o l ih =>
    cases c with
    | zero =>
      simp only [List.modify_zero_cons, List.countP_cons]
      have hfo := hf o
      cases ho : o.freed <;> cases hfo' : (f o).freed <;> simp_all
    | succ c =>
      simp only [List.modify_succ_cons, List.countP_cons]
      have hle := ih c
      omega

omit [DecidableEq Λ] in
/-- A connection is freed. -/
theorem countP_free_lt (l : List (Conn Λ)) {c : ℕ} {o : Conn Λ} (ho : l[c]? = some o)
    (hfreed : o.freed = false) :
    (l.modify c fun o => { o with freed := true }).countP (fun o => !o.freed) <
      l.countP fun o => !o.freed := by
  induction l generalizing c with
  | nil => cases ho
  | cons p l ih =>
    cases c with
    | zero =>
      obtain rfl : p = o := Option.some.inj ho
      simp [hfreed]
    | succ c =>
      simp only [List.modify_succ_cons, List.countP_cons]
      have hlt := ih ho
      omega

/-- **Every step that the loops take by themselves is some of the work.** -/
theorem work_step [Fintype Λ] {a : Step Λ} (hs : s.step a = some s') (ha : s.Internal a)
    (hreg : Registry none s) : s'.work < s.work := by
  cases a with
  | accept sockfd => exact ha.elim
  | close c => exact ha.elim
  | store =>
    simp only [TcpServer.step] at hs
    split at hs
    · cases hs
    · rename_i c hc
      split at hs
      · cases hs
      · obtain rfl := Option.some.inj hs
        simp [work, TcpServer.store, hc]
  | runTask loop =>
    simp only [TcpServer.step, assert_eq_some_iff] at hs
    obtain ⟨-, hs⟩ := hs
    split at hs
    · cases hs
    · rename_i task tasks htasks
      obtain rfl := Option.some.inj hs
      set t : TcpServer Λ := { s with tasks_ := Function.update s.tasks_ loop tasks }
      have hpop : ∑ k, weight (t.tasks_ k) + taskWeight task = ∑ k, weight (s.tasks_ k) := by
        have hsum := sum_update weight s.tasks_ (Finset.mem_univ loop) tasks
        have hcons : weight (s.tasks_ loop) = taskWeight task + weight tasks := by
          rw [htasks, weight, List.map_cons, List.sum_cons, weight]
        show ∑ k, weight (Function.update s.tasks_ loop tasks k) + taskWeight task = _
        omega
      have hmodify : ∀ (c : ℕ) (f : Conn Λ → Conn Λ), (∀ o, o.freed = true → (f o).freed = true) →
          (t.modify c f).work ≤ t.work := by
        intro c f hf
        have hle := countP_modify_le t.objects c hf
        unfold work modify
        dsimp only
        omega
      have hwork : t.work + taskWeight task = s.work := by
        have hobjects : t.objects = s.objects := rfl
        have haccepting : t.accepting = s.accepting := rfl
        unfold work
        rw [hobjects, haccepting]
        omega
      cases task with
      | connectionEstablished c =>
        have hle := hmodify c (fun o => { o with registered := true }) fun _ h => h
        rw [show taskWeight (.connectionEstablished c) = 1 from rfl] at hwork
        exact lt_of_le_of_lt hle (by omega)
      | connectionDestroyed c =>
        have hle := hmodify c (fun o => { o with registered := false, destroyed := true })
          fun _ h => h
        rw [show taskWeight (.connectionDestroyed c) = 1 from rfl] at hwork
        exact lt_of_le_of_lt hle (by omega)
      | removeConnectionInLoop c =>
        rw [show taskWeight (.removeConnectionInLoop c) = 2 from rfl] at hwork
        obtain ⟨o, ho, -⟩ := hreg.alive c
          (.inr (.inr (.inr ⟨loop, _, htasks ▸ List.mem_cons_self, rfl⟩)))
        have hperform : t.perform (.removeConnectionInLoop c) = t.removeConnectionInLoop c o := by
          have ho' : t.objects[c]? = some o := ho
          simp only [perform, ho']
        have hqueued : (t.removeConnectionInLoop c o).work = t.work + 1 := by
          have hsum := sum_update weight t.tasks_ (Finset.mem_univ o.ioLoop)
            (t.tasks_ o.ioLoop ++ [.connectionDestroyed c])
          have happend : weight (t.tasks_ o.ioLoop ++ [.connectionDestroyed c]) =
              weight (t.tasks_ o.ioLoop) + 1 := by
            simp [weight, taskWeight]
          show ∑ k, weight (Function.update t.tasks_ o.ioLoop
            (t.tasks_ o.ioLoop ++ [.connectionDestroyed c]) k) + t.accepting.toList.length +
              t.objects.countP (fun o => !o.freed) = t.work + 1
          unfold work
          omega
        rw [hperform]
        omega
  | free c =>
    obtain ⟨o, ho, hfreed⟩ := ha
    simp only [TcpServer.step, assert_eq_some_iff, Option.some.injEq] at hs
    obtain ⟨-, rfl⟩ := hs
    have hlt := countP_free_lt s.objects ho hfreed
    unfold work modify
    dsimp only
    omega

/-! ## Servers that can only wait -/

/-- A loop that cannot go on has no tasks. -/
theorem empty_of_stuck [Fintype Λ] (hreg : Registry none s)
    (hstuck : ∀ a, s.Internal a → s.step a = none) :
    s.accepting = none ∧ ∀ loop, s.tasks_ loop = [] := by
  have haccepting : s.accepting = none := by
    cases hc : s.accepting with
    | none => rfl
    | some c =>
      obtain ⟨o, ho, -⟩ := hreg.alive c (.inr (.inl hc))
      have hnone := hstuck .store trivial
      simp [step, hc, ho] at hnone
  refine ⟨haccepting, fun loop => ?_⟩
  have hnone := hstuck (.runTask loop) trivial
  simp only [step, haccepting, implies_true, assert, if_true] at hnone
  split at hnone
  · assumption
  · cases hnone

section Runs

variable [Fintype Λ] {steps more : List (Step Λ)} {closed closed' : List ℕ}

/-- What holds of a server, and of the connections that were closed, in every run. -/
theorem closing_run
    (hrun : run (observed step close) ({ mainLoop_, subLoops_ }, []) steps = some (s, closed)) :
    Registry none s ∧ ∀ c ∈ closed, Closing c s := by
  refine run_invariant (I := fun x : TcpServer Λ × List ℕ =>
    Registry none x.1 ∧ ∀ c ∈ x.2, Closing c x.1) ?_ hrun ⟨registry_new mainLoop_ subLoops_, by simp⟩
  rintro ⟨s, closed⟩ a ⟨s', closed'⟩ hs ⟨hreg, hclosing⟩
  obtain ⟨hstep, rfl⟩ := observed_eq_some_iff.mp hs
  refine ⟨registry_step hstep hreg, fun c hc => Closing.step hstep hreg ?_⟩
  cases a with
  | close d =>
    rcases List.mem_append.mp hc with hc | hc
    · exact .inr (hclosing c hc)
    · exact .inl (by rw [List.mem_singleton.mp hc])
  | _ => exact .inr (hclosing c hc)

/-- **No connection that was closed is kept.** From every state to which a run leads: the loops can
take only so many steps by themselves, and when they cannot go on, every connection whose close
callback was ever invoked is destroyed and freed, its channel is not registered, and there is no
entry for it in the map.

**Proof sketch.** The close callback queues the task that removes the connection, which queues the
one that destroys it. When no task waits, only the map could refer to the connection, and it does
not, since the task that removed it has run behind the store of `onNewConnection`. -/
theorem freed_of_stuck
    (hrun : run (observed step close) ({ mainLoop_, subLoops_ }, []) steps = some (s, closed)) :
    ∃ bound, ∀ more s' closed',
      run (observed step close) (s, closed) more = some (s', closed') →
      Along (observed step close) (fun x a => x.1.Internal a) (s, closed) more →
      more.length ≤ bound ∧
        ((∀ a, s'.Internal a → s'.step a = none) → ∀ c ∈ closed', ∃ o, s'.objects[c]? = some o ∧
          o.destroyed = true ∧ o.registered = false ∧ o.freed = true ∧
          ∀ fd, s'.connections_.find? fd ≠ some c) := by
  refine ⟨s.work, fun more s' closed' hmore hinternal => ?_⟩
  have hstep : ∀ {x : TcpServer Λ × List ℕ} {a y}, observed step close x a = some y →
      x.1.Internal a → Registry none x.1 → Registry none y.1 ∧ y.1.work < x.1.work := by
    intro x a y hs ha hreg
    have hs' := (observed_eq_some_iff.mp hs).1
    exact ⟨registry_step hs' hreg, work_step hs' ha hreg⟩
  obtain ⟨-, hlength⟩ := hinternal.length_le hstep hmore (closing_run hrun).1
  refine ⟨(Nat.le_add_right _ _).trans hlength, fun hstuck c hc => ?_⟩
  have hboth : run (observed step close) ({ mainLoop_, subLoops_ }, []) (steps ++ more) =
      some (s', closed') := run_append.mpr ⟨(s, closed), hrun, hmore⟩
  obtain ⟨hreg, hclosing⟩ := closing_run hboth
  obtain ⟨haccepting, hempty⟩ := empty_of_stuck hreg hstuck
  obtain ⟨hlt, hremove | ⟨-, hgone⟩⟩ := hclosing c hc
  · rw [hempty] at hremove
    cases hremove
  · have hfree : ¬ s'.Referenced c := by
      rintro (haccept | hentry | ⟨loop, task, htask, -⟩)
      · rw [haccepting] at haccept
        cases haccept
      · obtain ⟨fd, hfd⟩ := exists_mem_entries_iff.mp hentry
        exact hgone fd hfd
      · rw [hempty] at htask
        cases htask
    have ho : s'.objects[c]? = some s'.objects[c] := List.getElem?_eq_getElem hlt
    obtain ⟨hdestroyed, hregistered⟩ :=
      (registry_sound (run_observed_iff.mp ⟨closed', hboth⟩)).2.2 c _ ho hfree
    refine ⟨_, ho, hdestroyed, hregistered, ?_, hgone⟩
    by_contra hfreed
    have hnone := hstuck (.free c) ⟨_, ho, by simpa using hfreed⟩
    simp [step, assert, hfree] at hnone

end Runs

/-- A connection of a sub-loop is closed twice while it is stored. -/
theorem freed_of_stuck_twice : ∃ (s s' : TcpServer Bool) (closed closed' : List ℕ),
    run (observed step close) (({ mainLoop_ := false, subLoops_ := [true] } : TcpServer Bool), [])
      [.accept 7, .runTask true, .close 0, .store, .close 0] = some (s, closed) ∧
    run (observed step close) (s, closed)
      [.runTask false, .runTask false, .runTask true, .runTask true, .free 0] =
        some (s', closed') ∧
    closed' = [0, 0] ∧ ∀ c ∈ closed', ∃ o, s'.objects[c]? = some o ∧ o.destroyed = true ∧
      o.registered = false ∧ o.freed = true ∧ ∀ fd, s'.connections_.find? fd ≠ some c := by
  set more : List (Step Bool) := [.runTask false, .runTask false, .runTask true, .runTask true,
    .free 0] with hmore
  have hcheck : (run (observed step close)
      (({ mainLoop_ := false, subLoops_ := [true] } : TcpServer Bool), [])
      [.accept 7, .runTask true, .close 0, .store, .close 0]).any (fun x =>
        (Along (observed step close) (fun x a => x.1.Internal a) x more) &&
        (run (observed step close) x more).any fun y => y.1.work = 0 ∧ y.2 = [0, 0]) = true := by
    decide
  obtain ⟨⟨s, closed⟩, hs, hrest⟩ := (Option.any_eq_true _ _).mp hcheck
  obtain ⟨hinternal, hrest⟩ := Bool.and_eq_true_iff.mp hrest
  obtain ⟨⟨s', closed'⟩, hs', hfields⟩ := (Option.any_eq_true _ _).mp hrest
  obtain ⟨hwork, hclosed⟩ := of_decide_eq_true hfields
  obtain ⟨bound, hbound⟩ := freed_of_stuck hs
  refine ⟨s, s', closed, closed', hs, hs', hclosed,
    (hbound more s' closed' hs' (of_decide_eq_true hinternal)).2 fun a ha => ?_⟩
  cases hstep : s'.step a with
  | none => rfl
  | some t =>
    have hreg := (closing_run (run_append.mpr ⟨(s, closed), hs, hs'⟩)).1
    have hless := work_step hstep ha hreg
    dsimp only at hwork
    omega

end LouisNet.Net.TcpServer
