import Atlas.Control.HostPolicy

/-! Nothing that was staged is lost, as long as nothing is staged between the time a run of the
apply script looks at a file for the last time and the time it removes it. -/
namespace Atlas
namespace Control

open Actions Dialogue Shared

/-- A text has been made effective or reported as failed. -/
def Files.Settled (h : Files) (kind : Kind) (version : ℕ) : Prop :=
  (kind,version) ∈ h.effective ∨ (kind,version) ∈ h.failed

/-- A text is the newest of its kind only if it is settled or still staged. -/
def Held (h : Files) (s : Stamp) : Prop :=
  0 < s.version ∧ s.version ≤ h.writes s.kind ∧ (s.version = h.writes s.kind →
    h.Settled s.kind s.version ∨ h.staged s.kind = some (s.version,s.text))

structure Tidy (h : Files) : Prop where
  current : ∀ kind version text, h.staged kind = some (version,text) → version = h.writes kind
  latest : ∀ kind, h.writes kind = 0 ∨ (h.staged kind).isSome ∨ h.Settled kind (h.writes kind)
  wrote : ∀ i, ∀ s ∈ (h.progress i).wrote, Held h s
  accepted : ∀ s ∈ h.accepted, Held h s
  requested : ∀ s ∈ h.accepted, s.version = h.writes s.kind →
    h.Settled s.kind s.version ∨ h.request.isSome

/-- Nothing has been staged since the run looked at what it is about to remove. -/
def Untouched (h : Files) (i : ℕ) : FileStep → Prop
  | .unlinkRequest => (h.progress i).seen .policy = some (h.writes .policy) ∧
      (h.progress i).seen .servers = some (h.writes .servers)
  | .unlink kind => (h.progress i).seen kind = some (h.writes kind)
  | _ => True

/-- What the steps of one call or run leave to the others. -/
structure Apart (i : ℕ) (h h' : Files) : Prop where
  progress : ∀ j, j ≠ i → h'.progress j = h.progress j
  effective : h.effective ⊆ h'.effective
  failed : h.failed ⊆ h'.failed
  active : ∀ j, j ≠ i → h.active = some j → h'.active = some j ∧ h'.resultTmp = h.resultTmp

def contract : Contract Files FileStep where
  inv := Tidy
  does := Apart
  may := Untouched

theorem Files.Settled.mono {h h' : Files} {kind : Kind} {version : ℕ}
    (hs : h.Settled kind version) (he : h.effective ⊆ h'.effective)
    (hf : h.failed ⊆ h'.failed) : h'.Settled kind version :=
  hs.imp (fun hm => he hm) fun hm => hf hm

section

variable {h : Files} {i : ℕ}

theorem note_others (p : Progress) : ∀ j, j ≠ i → (h.note i p).progress j = h.progress j :=
  fun _ hj => Function.update_of_ne hj _ _

@[simp] theorem note_progress (p : Progress) : (h.note i p).progress i = p :=
  Function.update_self ..

/-- A text that is not staged has never been written or is settled. -/
theorem Tidy.gone (hi : Tidy h) {kind : Kind} (hnone : h.staged kind = none) :
    h.writes kind = 0 ∨ h.Settled kind (h.writes kind) := by
  rcases hi.latest kind with hz | hs | hs
  · exact Or.inl hz
  · rw [hnone] at hs
    cases hs
  · exact Or.inr hs

theorem Tidy.note (hi : Tidy h) {p : Progress} (hp : p.wrote = (h.progress i).wrote) :
    Tidy (h.note i p) := by
  refine ⟨hi.current,hi.latest,fun j s hs => ?_,hi.accepted,hi.requested⟩
  by_cases hj : j = i
  · rw [hj,note_progress,hp] at hs
    exact hi.wrote i s hs
  · rw [note_others p j hj] at hs
    exact hi.wrote j s hs

/-- More is settled, and the texts staged and written are the same. -/
theorem Tidy.settle {h' : Files} (hi : Tidy h) (hst : h'.staged = h.staged)
    (hw : h'.writes = h.writes) (hr : h'.request = h.request) (ha : h'.accepted = h.accepted)
    (hp : h'.progress = h.progress) (he : h.effective ⊆ h'.effective)
    (hf : h.failed ⊆ h'.failed) : Tidy h' := by
  have hheld : ∀ s, Held h s → Held h' s := by
    rintro s ⟨hz,hle,hs⟩
    refine ⟨hz,by rwa [hw],fun hv => ?_⟩
    rw [hw] at hv
    rw [hst]
    exact (hs hv).imp_left fun hset => hset.mono he hf
  refine ⟨fun kind => ?_,fun kind => ?_,fun j s hs => ?_,fun s hs => ?_,fun s hs hv => ?_⟩
  · rw [hst,hw]
    exact hi.current kind
  · rw [hst,hw]
    exact (hi.latest kind).imp_right fun hl => hl.imp_right fun hset => hset.mono he hf
  · rw [hp] at hs
    exact hheld s (hi.wrote j s hs)
  · rw [ha] at hs
    exact hheld s (hi.accepted s hs)
  · rw [ha] at hs
    rw [hw] at hv
    rw [hr]
    exact (hi.requested s hs hv).imp_left fun hset => hset.mono he hf

theorem Apart.note (p : Progress) : Apart i h (h.note i p) :=
  ⟨note_others p,fun _ hm => hm,fun _ hm => hm,fun _ _ ha => ⟨ha,rfl⟩⟩

/-- A newer text replaces what is staged of its kind. -/
theorem Held.replace {s : Stamp} (hs : Held h s) (kind : Kind) (text : String) :
    Held (h.replace i kind text) s := by
  by_cases hk : s.kind = kind
  · refine ⟨hs.1,?_,fun hv => ?_⟩
    · have := hs.2.1
      simp only [Files.replace,hk,Function.update_self] at this ⊢
      omega
    · have := hs.2.1
      simp only [Files.replace,hk,Function.update_self] at hv this
      omega
  · have hw : (h.replace i kind text).writes s.kind = h.writes s.kind :=
      Function.update_of_ne hk _ _
    have hst : (h.replace i kind text).staged s.kind = h.staged s.kind :=
      Function.update_of_ne hk _ _
    refine ⟨hs.1,by rw [hw]; exact hs.2.1,fun hv => ?_⟩
    rw [hw] at hv
    rw [hst]
    exact hs.2.2 hv

theorem Tidy.replace (hi : Tidy h) (kind : Kind) (text : String) :
    Tidy (h.replace i kind text) := by
  have hnew : Held (h.replace i kind text) ⟨kind,h.writes kind + 1,text⟩ := by
    refine ⟨Nat.succ_pos _,?_,fun _ => Or.inr ?_⟩
    · simp [Files.replace]
    · simp [Files.replace]
  refine ⟨fun k version t hs => ?_,fun k => ?_,fun j s hs => ?_,
    fun s hs => (hi.accepted s hs).replace kind text,fun s hs hv => ?_⟩
  · by_cases hk : k = kind
    · simp only [Files.replace,hk,Function.update_self,Option.some.injEq,Prod.mk.injEq] at hs ⊢
      exact hs.1.symm
    · simp only [Files.replace,Function.update_of_ne hk] at hs ⊢
      exact hi.current k version t hs
  · by_cases hk : k = kind
    · simp [Files.replace,hk]
    · simp only [Files.replace,Function.update_of_ne hk]
      exact hi.latest k
  · by_cases hj : j = i
    · simp only [Files.replace,Files.note,hj,Function.update_self,List.mem_append,
        List.mem_singleton] at hs
      rcases hs with hs | rfl
      · exact (hi.wrote i s hs).replace kind text
      · exact hnew
    · simp only [Files.replace,Files.note,Function.update_of_ne hj] at hs
      exact (hi.wrote j s hs).replace kind text
  · by_cases hk : s.kind = kind
    · have := (hi.accepted s hs).2.1
      simp only [Files.replace,hk,Function.update_self] at this hv
      omega
    · simp only [Files.replace,Function.update_of_ne hk] at hv
      exact hi.requested s hs hv

/-- A file is removed that nothing has replaced since its text was settled. -/
theorem Tidy.unlink (hi : Tidy h) {kind : Kind}
    (hs : h.writes kind = 0 ∨ h.Settled kind (h.writes kind)) :
    Tidy {h with staged := Function.update h.staged kind none} := by
  have hheld : ∀ s, Held h s → Held {h with staged := Function.update h.staged kind none} s := by
    rintro s ⟨hz,hle,hv⟩
    refine ⟨hz,hle,fun heq => ?_⟩
    by_cases hk : s.kind = kind
    · subst hk
      rcases hs with hn | hset
      · have : 0 < h.writes s.kind := Nat.lt_of_lt_of_le hz hle
        omega
      · rw [← heq] at hset
        exact Or.inl hset
    · refine (hv heq).imp_right fun hst => ?_
      rw [← hst]
      exact Function.update_of_ne hk _ _
  refine ⟨fun k version text hst => ?_,fun k => ?_,fun j s hm => hheld s (hi.wrote j s hm),
    fun s hm => hheld s (hi.accepted s hm),hi.requested⟩
  · by_cases hk : k = kind
    · simp [hk] at hst
    · simp only [Function.update_of_ne hk] at hst
      exact hi.current k version text hst
  · by_cases hk : k = kind
    · subst hk
      exact hs.imp_right Or.inr
    · simp only [Function.update_of_ne hk]
      exact hi.latest k

theorem Tidy.unlinkRequest (hi : Tidy h)
    (hs : ∀ kind, h.writes kind = 0 ∨ h.Settled kind (h.writes kind)) :
    Tidy {h with request := none} := by
  refine ⟨hi.current,hi.latest,hi.wrote,hi.accepted,fun s hm hv => ?_⟩
  rcases hs s.kind with hn | hset
  · have hz := (hi.accepted s hm).1
    rw [hv,hn] at hz
    cases hz
  · left
    rw [hv]
    exact hset

/-- The request is written after the texts that it stands for. -/
theorem Tidy.writeRequest (hi : Tidy h) (request : ApplyRequest) :
    Tidy {h with
      request := some request
      accepted := h.accepted ++ (h.progress i).wrote} := by
  refine ⟨hi.current,hi.latest,hi.wrote,fun s hm => ?_,fun _ _ _ => Or.inr rfl⟩
  rcases List.mem_append.mp hm with hm | hm
  · exact hi.accepted s hm
  · exact hi.wrote i s hm

theorem Tidy.clear (hi : Tidy h) : Tidy (h.clear i) := by
  refine ⟨hi.current,hi.latest,fun j s hs => ?_,hi.accepted,hi.requested⟩
  by_cases hj : j = i
  · simp [Files.clear,Files.note,hj] at hs
  · simp only [Files.clear,note_others _ j hj] at hs
    exact hi.wrote j s hs

theorem Apart.clear : Apart i h (h.clear i) := by
  refine ⟨note_others _,fun _ hm => hm,fun _ hm => hm,fun j hj ha => ⟨?_,rfl⟩⟩
  have hne : ¬ h.active = some i := by
    rw [ha]
    exact fun heq => hj (Option.some.inj heq)
  simp only [Files.clear]
  rw [if_neg hne,ha]

end

/-- A run has looked at a kind and made its text effective, or found it at fault. -/
def Treated (i : ℕ) (kind : Kind) (h : Files) : Prop :=
  ∃ n, (h.progress i).seen kind = some n ∧
    (n = 0 ∨ h.Settled kind n ∨ (kind,n) ∈ (h.progress i).rejected)

/-- The policy that a run looked at is settled, or is the one it installed. -/
def Carried (i : ℕ) (h : Files) : Prop :=
  ∃ n, (h.progress i).seen .policy = some n ∧
    (n = 0 ∨ h.Settled .policy n ∨ (h.progress i).installed = some n)

/-- A run is the active one, has treated some kinds, and has found no fault if there is none. -/
structure Running (i : ℕ) (kinds : List Kind) (spotless : Prop) (h : Files) : Prop where
  active : h.active = some i
  treated : ∀ kind ∈ kinds, Treated i kind h
  spotless : spotless → (h.progress i).rejected = []

section

variable {h h' : Files} {i : ℕ}

theorem Treated.mono {kind : Kind} (ht : Treated i kind h)
    (hs : (h'.progress i).seen kind = (h.progress i).seen kind)
    (he : h.effective ⊆ h'.effective) (hf : h.failed ⊆ h'.failed)
    (hr : (h.progress i).rejected ⊆ (h'.progress i).rejected) : Treated i kind h' := by
  rcases ht with ⟨n,hn,hcase⟩
  refine ⟨n,by rw [hs,hn],hcase.imp_right fun hcase => ?_⟩
  exact hcase.imp (fun hset => hset.mono he hf) fun hm => hr hm

theorem Carried.mono (hc : Carried i h) (hp : h'.progress i = h.progress i)
    (he : h.effective ⊆ h'.effective) (hf : h.failed ⊆ h'.failed) : Carried i h' := by
  rcases hc with ⟨n,hn,hcase⟩
  rw [← hp] at hn hcase
  exact ⟨n,hn,hcase.imp_right fun hcase => hcase.imp_left fun hset => hset.mono he hf⟩

theorem Running.imp {kinds : List Kind} {c c' : Prop} (hr : Running i kinds c h)
    (hc : c' → c) : Running i kinds c' h := ⟨hr.active,hr.treated,fun h => hr.spotless (hc h)⟩

theorem Running.mono {kinds : List Kind} {c : Prop} (hr : Running i kinds c h)
    (ha : h'.active = h.active) (hp : h'.progress i = h.progress i)
    (he : h.effective ⊆ h'.effective) (hf : h.failed ⊆ h'.failed) :
    Running i kinds c h' := by
  refine ⟨by rw [ha,hr.active],fun k hk => ?_,fun hc => by rw [hp]; exact hr.spotless hc⟩
  exact (hr.treated k hk).mono (by rw [hp]) he hf (by rw [hp]; exact fun _ hm => hm)

/-- A look at a kind, with what else the run notes about it. -/
theorem Running.note {kinds : List Kind} {c c' : Prop} (hr : Running i kinds c h) {kind : Kind}
    {p : Progress} (hk : kind ∉ kinds)
    (hs : p.seen = Function.update (h.progress i).seen kind (some (h.writes kind)))
    (hrej : (h.progress i).rejected ⊆ p.rejected) (hc : c' → c ∧ p.rejected = []) :
    Running i kinds c' (h.note i p) := by
  refine ⟨hr.active,fun k hm => ?_,fun h' => by rw [note_progress]; exact (hc h').2⟩
  refine (hr.treated k hm).mono ?_ (fun _ he => he) (fun _ hf => hf) ?_
  · rw [note_progress,hs]
    exact Function.update_of_ne (by rintro rfl; exact hk hm) _ _
  · rw [note_progress]
    exact hrej

theorem Running.cons {kinds : List Kind} {c : Prop} {kind : Kind} (hr : Running i kinds c h)
    (ht : Treated i kind h) : Running i (kind :: kinds) c h :=
  ⟨hr.active,List.forall_mem_cons.mpr ⟨ht,hr.treated⟩,hr.spotless⟩

/-- A kind of which nothing is staged needs no more treatment. -/
theorem Tidy.treated (hi : Tidy h) {kind : Kind} (hnone : h.staged kind = none) :
    Treated i kind (h.note i (h.look i kind)) := by
  refine ⟨h.writes kind,?_,(hi.gone hnone).imp_right Or.inl⟩
  simp [Files.look,Files.sees]

theorem Running.look {kinds : List Kind} {c : Prop} {kind : Kind} (hr : Running i kinds c h)
    (hk : kind ∉ kinds) : Running i kinds c (h.note i (h.look i kind)) :=
  hr.note hk rfl (fun _ hm => hm) fun hc => ⟨hc,hr.spotless hc⟩

variable [ScriptRuntime]

/-- What the host and the other calls do does not change what a run knows. -/
theorem running_lasting (kinds : List Kind) (c : Prop) :
    shared.Lasting contract i (Running i kinds c) := by
  rintro h h' ⟨-,-,⟨e,rfl⟩ | ⟨j,hj,hd⟩⟩ hr
  · cases e <;> exact ⟨hr.active,hr.treated,hr.spotless⟩
  · exact hr.mono (by rw [(hd.active i hj.symm hr.active).1,hr.active])
      (hd.progress i hj.symm) hd.effective hd.failed

theorem carried_lasting : shared.Lasting contract i (Carried i) := by
  rintro h h' ⟨-,-,⟨e,rfl⟩ | ⟨j,hj,hd⟩⟩ hc
  · cases e <;> exact hc
  · exact hc.mono (hd.progress i hj.symm) hd.effective hd.failed

/-- The result that a run has written is not replaced by another. -/
theorem written_lasting (result : ApplyResult) :
    shared.Lasting contract i fun h => h.active = some i ∧ h.resultTmp = some result := by
  rintro h h' ⟨-,-,⟨e,rfl⟩ | ⟨j,hj,hd⟩⟩ hr
  · cases e <;> exact hr
  · have ha := hd.active i hj.symm hr.1
    exact ⟨ha.1,by rw [ha.2,hr.2]⟩

variable {α : Type} {Post : Except Failure α → Files → Prop} {kinds : List Kind} {c : Prop}
  {kind : Kind} {s : Files}

/-- A step that leaves alone what is staged, what has been settled and what the run knows. -/
theorem quiet_honours {q : FileStep} {k : q.Answer → Script α}
    (hq : ∀ (t : Files) r u, t.answer i q = some (r,u) →
      ∃ target previous, u = {t with target := target, previous := previous})
    (hs : Running i kinds c s)
    (h : ∀ r t, Running i kinds c t → shared.Honours contract i Post (k r) t) :
    shared.Honours contract i Post (.ask q k) s := by
  refine Honours.ask (running_lasting kinds c) hs fun t ht hi _ r u hu => ?_
  rcases hq t r u hu with ⟨target,previous,rfl⟩
  refine ⟨⟨hi.current,hi.latest,hi.wrote,hi.accepted,hi.requested⟩,
    ⟨fun _ _ => rfl,fun _ hm => hm,fun _ hm => hm,fun _ _ ha => ⟨ha,rfl⟩⟩,h r _ ?_⟩
  exact ⟨ht.active,ht.treated,ht.spotless⟩

theorem hasStaged_honours {k : Bool → Script α} (hk : kind ∉ kinds) (hs : Running i kinds c s)
    (hfalse : ∀ t, Running i (kind :: kinds) c t →
      shared.Honours contract i Post (k false) t)
    (htrue : ∀ t, Running i kinds c t → shared.Honours contract i Post (k true) t) :
    shared.Honours contract i Post (.ask (.hasStaged kind) k) s := by
  refine Honours.ask (running_lasting kinds c) hs fun t ht hi _ r u hu => ?_
  simp only [shared,Files.answer,Option.some.injEq,Prod.mk.injEq] at hu
  rcases hu with ⟨rfl,rfl⟩
  refine ⟨hi.note rfl,.note _,?_⟩
  cases hst : t.staged kind with
  | none => exact hfalse _ ((ht.look hk).cons (hi.treated hst))
  | some file => exact htrue _ (ht.look hk)

/-- A text that is refused is at fault from then on. -/
theorem check_honours {k : Bool × String → Script α} (hk : kind ∉ kinds)
    (hs : Running i kinds c s)
    (hbad : ∀ output t, Running i (kind :: kinds) False t →
      shared.Honours contract i Post (k (false,output)) t)
    (hgood : ∀ output t, Running i kinds c t →
      shared.Honours contract i Post (k (true,output)) t) :
    shared.Honours contract i Post (.ask (.check kind) k) s := by
  refine Honours.ask (running_lasting kinds c) hs fun t ht hi _ r u hu => ?_
  simp only [shared,Files.answer] at hu
  split at hu
  · next hst =>
    cases hu
    refine ⟨hi.note rfl,.note _,hbad _ _ ?_⟩
    exact ((ht.look hk).cons (hi.treated hst)).imp False.elim
  · next version text hst =>
    simp only [Option.some.injEq,Prod.mk.injEq] at hu
    rcases hu with ⟨rfl,rfl⟩
    rcases hv : ScriptRuntime.check kind text with ⟨ok,output⟩
    cases ok with
    | true => exact ⟨hi.note rfl,.note _,hgood _ _ (ht.look hk)⟩
    | false =>
      refine ⟨hi.note rfl,.note _,hbad _ _ (Running.cons ?_ ?_)⟩
      · exact ht.note hk rfl (List.subset_append_left ..) False.elim
      · refine ⟨version,?_,Or.inr (Or.inr ?_)⟩
        · simp [Files.rejects,Files.look,Files.sees,hi.current kind version text hst]
        · simp [Files.rejects]

theorem installServers_honours {k : Unit → Script α} (hk : Kind.servers ∉ kinds)
    (hs : Running i kinds c s)
    (h : ∀ t, Running i (.servers :: kinds) c t →
      shared.Honours contract i Post (k ()) t) :
    shared.Honours contract i Post (.ask (.install .servers) k) s := by
  refine Honours.ask (running_lasting kinds c) hs fun t ht hi _ r u hu => ?_
  cases hu
  simp only [Files.install]
  split
  · next hst => exact ⟨hi.note rfl,.note _,h _ ((ht.look hk).cons (hi.treated hst))⟩
  · next version text hst =>
    have hn : Tidy (t.note i (t.look i .servers)) := hi.note rfl
    have hsub : t.effective ⊆ t.effective ++ [(Kind.servers,version)] :=
      List.subset_append_left ..
    refine ⟨hn.settle rfl rfl rfl rfl rfl hsub fun _ hm => hm,
      ⟨note_others _,hsub,fun _ hm => hm,fun _ _ ha => ⟨ha,rfl⟩⟩,h _ (Running.cons ?_ ?_)⟩
    · exact (ht.look hk).mono rfl rfl hsub fun _ hm => hm
    · refine ⟨version,?_,Or.inr (Or.inl (Or.inl ?_))⟩
      · simp [Files.note,Files.look,Files.sees,hi.current .servers version text hst]
      · simp

theorem installPolicy_honours {k : Unit → Script α} (hk : Kind.policy ∉ kinds)
    (hs : Running i kinds c s)
    (h : ∀ t, Running i kinds c t ∧ Carried i t →
      shared.Honours contract i Post (k ()) t) :
    shared.Honours contract i Post (.ask (.install .policy) k) s := by
  refine Honours.ask (running_lasting kinds c) hs fun t ht hi _ r u hu => ?_
  cases hu
  simp only [Files.install]
  split
  · next hst =>
    refine ⟨hi.note rfl,.note _,h _ ⟨ht.look hk,t.writes .policy,?_,?_⟩⟩
    · simp [Files.look,Files.sees]
    · exact (hi.gone hst).imp_right Or.inl
  · next version text hst =>
    have hn : Tidy (t.note i {t.look i .policy with installed := some version}) := hi.note rfl
    refine ⟨⟨hn.current,hn.latest,hn.wrote,hn.accepted,hn.requested⟩,
      ⟨note_others _,fun _ hm => hm,fun _ hm => hm,fun _ _ ha => ⟨ha,rfl⟩⟩,h _ ⟨?_,?_⟩⟩
    · have hr : Running i kinds c
          (t.note i {t.look i .policy with installed := some version}) :=
        ht.note hk rfl (fun _ hm => hm) fun hc => ⟨hc,ht.spotless hc⟩
      exact ⟨hr.active,hr.treated,hr.spotless⟩
    · refine ⟨version,?_,Or.inr (Or.inr ?_)⟩
      · simp [Files.note,Files.look,Files.sees,hi.current .policy version text hst]
      · simp [Files.note]

/-- Rendering the envelope settles the policy that was installed, or shows it to be at fault. -/
theorem envelope_honours {k : Bool × String → Script α} (hs : Running i kinds c s ∧ Carried i s)
    (hbad : ∀ output t, Running i (.policy :: kinds) False t →
      shared.Honours contract i Post (k (false,output)) t)
    (hgood : ∀ output t, Running i (.policy :: kinds) c t →
      shared.Honours contract i Post (k (true,output)) t) :
    shared.Honours contract i Post (.ask .envelope k) s := by
  refine Honours.ask ((running_lasting kinds c).and carried_lasting) hs fun t ht hi _ r u hu => ?_
  rcases ht with ⟨ht,n,hn,hcase⟩
  simp only [shared,Files.answer,Option.some.injEq,Prod.mk.injEq] at hu
  rcases hu with ⟨rfl,rfl⟩
  have hgo : ∀ u : Files, (Running i (.policy :: kinds) False u ∧
      (t.envelope.1 = true → Running i (.policy :: kinds) c u)) →
      shared.Honours contract i Post (k t.envelope) u := by
    rcases t.envelope with ⟨ok,output⟩
    rintro u ⟨hb,hg⟩
    cases ok with
    | false => exact hbad output u hb
    | true => exact hgood output u (hg rfl)
  simp only [Files.render]
  split
  · next hnone =>
    have htr : Treated i .policy t := ⟨n,hn,hcase.imp_right fun hcase => by
      rw [hnone] at hcase
      exact hcase.imp_right fun h => by cases h⟩
    exact ⟨hi,⟨fun _ _ => rfl,fun _ hm => hm,fun _ hm => hm,fun _ _ ha => ⟨ha,rfl⟩⟩,
      hgo t ⟨(ht.cons htr).imp False.elim,fun _ => ht.cons htr⟩⟩
  · next version hver =>
    by_cases hok : t.envelope.1 = true
    · rw [if_pos hok]
      have hsub : t.effective ⊆ t.effective ++ [(Kind.policy,version)] :=
        List.subset_append_left ..
      have htr : Treated i .policy {t with
          effective := t.effective ++ [(Kind.policy,version)]} := by
        refine ⟨n,hn,hcase.imp_right fun hcase => Or.inl ?_⟩
        rcases hcase with hset | hins
        · exact hset.mono hsub fun _ hm => hm
        · rw [hver] at hins
          cases hins
          exact Or.inl (by simp)
      have hrun : Running i (.policy :: kinds) c {t with
          effective := t.effective ++ [(Kind.policy,version)]} := by
        refine Running.cons ?_ htr
        exact ht.mono rfl rfl hsub fun _ hm => hm
      exact ⟨hi.settle rfl rfl rfl rfl rfl hsub fun _ hm => hm,
        ⟨fun _ _ => rfl,hsub,fun _ hm => hm,fun _ _ ha => ⟨ha,rfl⟩⟩,
        hgo _ ⟨hrun.imp False.elim,fun _ => hrun⟩⟩
    · rw [if_neg hok]
      have hsub : (t.progress i).rejected ⊆
          (Files.rejects (t.progress i) .policy version).rejected :=
        List.subset_append_left ..
      refine ⟨hi.note rfl,.note _,hgo _ ⟨?_,fun h => absurd h hok⟩⟩
      refine ⟨ht.active,List.forall_mem_cons.mpr ⟨⟨n,?_,?_⟩,fun k' hk' => ?_⟩,False.elim⟩
      · rw [note_progress]
        exact hn
      · rw [note_progress]
        refine hcase.imp_right fun hcase => hcase.imp_right fun hins => ?_
        rw [hver] at hins
        cases hins
        simp [Files.rejects]
      · refine (ht.treated k' hk').mono ?_ (fun _ hm => hm) (fun _ hm => hm) ?_
        · rw [note_progress]
          rfl
        · rw [note_progress]
          exact hsub

/-- What a run has looked at is settled once it has published its result. -/
def Published (i : ℕ) (h : Files) : Prop :=
  ∀ kind, ∃ n, (h.progress i).seen kind = some n ∧ (n = 0 ∨ h.Settled kind n)

theorem published_lasting : shared.Lasting contract i (Published i) := by
  rintro h h' ⟨-,-,⟨e,rfl⟩ | ⟨j,hj,hd⟩⟩ hp
  · cases e <;> exact hp
  · intro kind
    rcases hp kind with ⟨n,hn,hcase⟩
    rw [← hd.progress i hj.symm] at hn
    exact ⟨n,hn,hcase.imp_right fun hset => hset.mono hd.effective hd.failed⟩

omit [ScriptRuntime] in
theorem Published.gone (hp : Published i h)
    (hu : (h.progress i).seen kind = some (h.writes kind)) :
    h.writes kind = 0 ∨ h.Settled kind (h.writes kind) := by
  rcases hp kind with ⟨n,hn,hcase⟩
  rw [hn] at hu
  cases hu
  exact hcase

theorem unlink_honours {k : Unit → Script α} (hs : Published i s)
    (h : ∀ t, Published i t → shared.Honours contract i Post (k ()) t) :
    shared.Honours contract i Post (.ask (.unlink kind) k) s := by
  refine Honours.ask published_lasting hs fun t ht hi hu r u hans => ?_
  cases hans
  exact ⟨hi.unlink (ht.gone hu),
    ⟨fun _ _ => rfl,fun _ hm => hm,fun _ hm => hm,fun _ _ ha => ⟨ha,rfl⟩⟩,h _ ht⟩

theorem unlinkRequest_honours {k : Unit → Script α} (hs : Published i s)
    (h : ∀ t, Published i t → shared.Honours contract i Post (k ()) t) :
    shared.Honours contract i Post (.ask .unlinkRequest k) s := by
  refine Honours.ask published_lasting hs fun t ht hi hu r u hans => ?_
  cases hans
  refine ⟨hi.unlinkRequest fun kind => ?_,
    ⟨fun _ _ => rfl,fun _ hm => hm,fun _ hm => hm,fun _ _ ha => ⟨ha,rfl⟩⟩,h _ ht⟩
  cases kind with
  | policy => exact ht.gone hu.1
  | servers => exact ht.gone hu.2

theorem writeResult_honours {k : Unit → Script α} (result : ApplyResult)
    (hs : Running i kinds c s)
    (h : ∀ t, Running i kinds c t ∧ t.active = some i ∧ t.resultTmp = some result →
      shared.Honours contract i Post (k ()) t) :
    shared.Honours contract i Post (.ask (.writeResult result) k) s := by
  refine Honours.ask (running_lasting kinds c) hs fun t ht hi _ r u hans => ?_
  cases hans
  refine ⟨⟨hi.current,hi.latest,hi.wrote,hi.accepted,hi.requested⟩,
    ⟨fun _ _ => rfl,fun _ hm => hm,fun _ hm => hm,fun j hj ha => ?_⟩,
    h _ ⟨⟨ht.active,ht.treated,ht.spotless⟩,ht.active,rfl⟩⟩
  rw [ht.active] at ha
  exact absurd (Option.some.inj ha).symm hj

/-- A run reports every fault that it has found. -/
theorem publish_honours {k : Unit → Script α} {result : ApplyResult}
    (hs : Running i [.servers,.policy] c s ∧ s.active = some i ∧ s.resultTmp = some result)
    (hc : result.status ≠ "failed" → c)
    (h : ∀ t, Published i t → shared.Honours contract i Post (k ()) t) :
    shared.Honours contract i Post (.ask .publish k) s := by
  refine Honours.ask ((running_lasting _ _).and (written_lasting result)) hs
    fun t ht hi _ r u hans => ?_
  rcases ht with ⟨ht,ha,hw⟩
  cases hans
  have hsub : t.failed ⊆ (if t.resultTmp.any (·.status == "failed") then
      t.failed ++ (t.progress i).rejected else t.failed) := by
    split
    · exact List.subset_append_left ..
    · exact fun _ hm => hm
  have hrej : (t.progress i).rejected ⊆ (if t.resultTmp.any (·.status == "failed") then
      t.failed ++ (t.progress i).rejected else t.failed) := by
    by_cases hf : result.status = "failed"
    · simp [hw,hf]
    · rw [ht.spotless (hc hf)]
      exact fun _ hm => by cases hm
  refine ⟨hi.settle rfl rfl rfl rfl rfl (fun _ hm => hm) hsub,
    ⟨fun _ _ => rfl,fun _ hm => hm,hsub,fun _ _ ha => ⟨ha,rfl⟩⟩,h _ fun kind => ?_⟩
  have hmem : kind ∈ [Kind.servers,Kind.policy] := by cases kind <;> simp
  rcases ht.treated kind hmem with ⟨n,hn,hcase⟩
  refine ⟨n,hn,hcase.imp_right fun hcase => ?_⟩
  rcases hcase with hset | hm
  · exact hset.mono (fun _ hm => hm) hsub
  · exact Or.inr (hrej hm)

theorem now_quiet : ∀ (t : Files) r u, t.answer i .now = some (r,u) →
    ∃ target previous, u = {t with target := target, previous := previous} := by
  intro t r u hu
  cases hu
  exact ⟨_,_,rfl⟩

theorem finish_honours (status : String) (report : Report)
    (hs : Running i [.servers,.policy] (status ≠ "failed") s) :
    shared.Honours contract i (fun _ _ => True) (finish status report) s := by
  unfold finish fileStep
  refine quiet_honours now_quiet hs fun now t ht => ?_
  refine writeResult_honours _ ht fun t ht => ?_
  refine publish_honours ht id fun t ht => ?_
  refine unlinkRequest_honours ht fun t ht => ?_
  refine unlink_honours ht fun t ht => ?_
  refine unlink_honours ht fun t _ => ?_
  exact Honours.done lasting_true trivial fun _ _ => trivial

/-- A run that goes on with the report that it has got. -/
theorem report_honours {report : Report} (hs : Running i kinds c s)
    (hc : report.errors = [] → c) :
    shared.Honours contract i
      (World.Returns fun report h => Running i kinds (report.errors = []) h)
      (pure report : Script Report) s :=
  Honours.done (running_lasting kinds c) hs fun _ hu => hu.imp hc

theorem restorePrevious_honours (report : Report) (output : String)
    (hs : Running i kinds False s) :
    shared.Honours contract i
      (World.Returns fun report h => Running i kinds (report.errors = []) h)
      (restorePrevious report output) s := by
  unfold restorePrevious fileStep
  refine quiet_honours (fun t r u hu => ?_) hs fun previous t ht => ?_
  · cases hu
    exact ⟨_,_,rfl⟩
  cases previous with
  | false => exact report_honours ht fun h => by simp at h
  | true =>
    refine quiet_honours (fun t r u hu => ?_) ht fun _ t ht => ?_
    · cases hu
      exact ⟨_,_,rfl⟩
    exact report_honours ht fun h => by simp at h

theorem keepPrevious_honours (hs : Running i kinds c s) :
    shared.Honours contract i (World.Returns fun _ h => Running i kinds c h) keepPrevious s := by
  unfold keepPrevious fileStep
  refine quiet_honours (fun t r u hu => ?_) hs fun target t ht => ?_
  · cases hu
    exact ⟨_,_,rfl⟩
  cases target with
  | false => exact Honours.done (running_lasting kinds c) ht fun _ hu => hu
  | true =>
    refine quiet_honours (fun t r u hu => ?_) ht fun _ t ht => ?_
    · cases hu
      exact ⟨_,_,rfl⟩
    exact Honours.done (running_lasting kinds c) ht fun _ hu => hu

theorem applyPolicy_honours (report : Report) (hs : Running i [] (report.errors = []) s) :
    shared.Honours contract i
      (World.Returns fun report h => Running i [.policy] (report.errors = []) h)
      (applyPolicy report) s := by
  have hk : Kind.policy ∉ [] := List.not_mem_nil
  unfold applyPolicy fileStep
  refine hasStaged_honours hk hs (fun t ht => report_honours ht id) fun t ht => ?_
  refine check_honours hk ht (fun output t ht => ?_) fun output t ht => ?_
  · exact report_honours ht fun h => by simp at h
  refine (keepPrevious_honours ht).bind_returns fun _ t ht => ?_
  refine installPolicy_honours hk ht fun t ht => ?_
  refine envelope_honours ht (fun output t ht => ?_) fun output t ht => ?_
  · exact restorePrevious_honours _ _ ht
  · exact report_honours ht id

theorem applyServers_honours (report : Report)
    (hs : Running i [.policy] (report.errors = []) s) :
    shared.Honours contract i
      (World.Returns fun report h => Running i [.servers,.policy] (report.errors = []) h)
      (applyServers report) s := by
  have hk : Kind.servers ∉ [Kind.policy] := by simp
  unfold applyServers fileStep
  refine hasStaged_honours hk hs (fun t ht => report_honours ht id) fun t ht => ?_
  refine check_honours hk ht (fun output t ht => ?_) fun output t ht => ?_
  · exact report_honours ht fun h => by simp at h
  refine installServers_honours hk ht fun t ht => ?_
  exact report_honours ht id

theorem activate_honours {k : Unit → Script α} (hs : (s.progress i).rejected = [])
    (h : ∀ t, Running i [] True t → shared.Honours contract i Post (k ()) t) :
    shared.Honours contract i Post (.ask .activate k) s := by
  have hlasting : shared.Lasting contract i fun h => (h.progress i).rejected = [] := by
    rintro h h' ⟨-,-,⟨e,rfl⟩ | ⟨j,hj,hd⟩⟩ hr
    · cases e <;> exact hr
    · rw [hd.progress i hj.symm]
      exact hr
  refine Honours.ask hlasting hs fun t ht hi _ r u hu => ?_
  simp only [shared,Files.answer] at hu
  split at hu
  · next j ha =>
    by_cases hj : j = i
    · rw [if_pos hj] at hu
      cases hu
      exact ⟨hi,⟨fun _ _ => rfl,fun _ hm => hm,fun _ hm => hm,fun _ _ ha => ⟨ha,rfl⟩⟩,
        h _ ⟨by rw [ha,hj],(fun _ hm => by cases hm),fun _ => ht⟩⟩
    · rw [if_neg hj] at hu
      cases hu
  · next ha =>
    cases hu
    refine ⟨⟨hi.current,hi.latest,hi.wrote,hi.accepted,hi.requested⟩,
      ⟨fun _ _ => rfl,fun _ hm => hm,fun _ hm => hm,fun j _ hj => ?_⟩,
      h _ ⟨rfl,(fun _ hm => by cases hm),fun _ => ht⟩⟩
    rw [ha] at hj
    cases hj

theorem applyHostPolicy_honours (hs : (s.progress i).rejected = []) :
    shared.Honours contract i (fun _ _ => True) applyHostPolicy s := by
  unfold applyHostPolicy fileStep
  refine activate_honours hs fun t ht => ?_
  refine quiet_honours (fun t r u hu => ?_) ht fun request t ht => ?_
  · cases hu
    exact ⟨_,_,rfl⟩
  cases request with
  | false => exact Honours.done lasting_true trivial fun _ _ => trivial
  | true =>
    refine (applyPolicy_honours {} (ht.imp fun _ => trivial)).bind_returns fun report t ht => ?_
    refine (applyServers_honours report ht).bind_returns fun report t ht => ?_
    by_cases he : report.errors = []
    · simp only [he,List.isEmpty_nil,if_true]
      exact finish_honours "applied" report (ht.imp fun _ => he)
    · simp only [List.isEmpty_iff,he,if_false]
      exact finish_honours "failed" report (ht.imp fun h => absurd rfl h)

theorem stageText_honours (kind : Kind) (text : Option String) :
    shared.Honours contract i (World.Returns fun _ _ => True) (stageText kind text) s := by
  unfold stageText
  cases text with
  | none => exact Honours.done lasting_true trivial fun _ _ => trivial
  | some text =>
    refine Honours.ask lasting_true trivial fun t _ hi _ r u hu => ?_
    cases hu
    refine ⟨hi.replace kind text,⟨fun j hj => ?_,fun _ hm => hm,fun _ hm => hm,
      fun _ _ ha => ⟨ha,rfl⟩⟩,Honours.done lasting_true trivial fun _ _ => trivial⟩
    exact note_others _ j hj

theorem stage_honours [ControlRuntime] (policyText serversText : Option String) :
    shared.Honours contract i (fun _ _ => True) (stage policyText serversText) s := by
  unfold stage fileStep
  split
  · exact Honours.done lasting_true trivial fun _ _ => trivial
  · refine (stageText_honours .policy policyText).bind_returns fun _ t _ => ?_
    refine (stageText_honours .servers serversText).bind_returns fun _ t _ => ?_
    refine Honours.ask lasting_true trivial fun t _ hi _ r u hu => ?_
    cases hu
    refine ⟨hi,⟨fun _ _ => rfl,fun _ hm => hm,fun _ hm => hm,fun _ _ ha => ⟨ha,rfl⟩⟩,?_⟩
    refine Honours.ask lasting_true trivial fun t _ hi _ r u hu => ?_
    cases hu
    exact ⟨hi.writeRequest _,
      ⟨fun _ _ => rfl,fun _ hm => hm,fun _ hm => hm,fun _ _ ha => ⟨ha,rfl⟩⟩,
      Honours.done lasting_true trivial fun _ _ => trivial⟩

theorem serve_honours [ControlRuntime] (c : Caller) (hs : (s.progress i).rejected = []) :
    shared.Honours contract i (fun _ _ => True) (serve c) s := by
  cases c with
  | stage policyText serversText => exact stage_honours policyText serversText
  | applyScript => exact applyHostPolicy_honours hs

end

section

variable [ControlRuntime] [ScriptRuntime]

theorem control_lawful :
    Crowd.Lawful shared serve contract fun _ _ _ _ => True where
  stir h e hi := by
    cases e <;> exact ⟨hi.current,hi.latest,hi.wrote,hi.accepted,hi.requested⟩
  enter h i c hi := by
    refine ⟨hi.clear,.clear,serve_honours c ?_⟩
    simp [shared,Files.clear,Files.note]
  leave h i hi := ⟨hi.clear,.clear⟩

/-- The host before the first call: what files there are were left from before. -/
structure Idle (m : HostControl) : Prop where
  threads : m.threads = []
  progress : ∀ i, m.host.progress i = {}
  writes : ∀ kind, m.host.writes kind = 0
  staged : ∀ kind version text, m.host.staged kind = some (version,text) → version = 0
  accepted : m.host.accepted = []

omit [ControlRuntime] [ScriptRuntime] in
theorem Idle.tidy {m : HostControl} (h : Idle m) : Tidy m.host := by
  refine ⟨fun kind version text hs => ?_,fun kind => Or.inl (h.writes kind),fun i s hs => ?_,
    fun s hs => ?_,fun s hs => ?_⟩
  · rw [h.writes,h.staged kind version text hs]
  · rw [h.progress] at hs
    cases hs
  · rw [h.accepted] at hs
    cases hs
  · rw [h.accepted] at hs
    cases hs

/-- A text that was accepted has been replaced by a newer one, made effective or reported as
failed, or it is still staged with a request. -/
def Kept (h : Files) (s : Stamp) : Prop :=
  s.version < h.writes s.kind ∨ (s.kind,s.version) ∈ h.effective ∨
    (s.kind,s.version) ∈ h.failed ∨
    (h.staged s.kind = some (s.version,s.text) ∧ h.request.isSome)

/-- In every run in which nothing is staged between a run's last look at a file and the removal of
that file and of the request, every text that was accepted is kept. -/
theorem staged_texts_kept (m : HostControl)
    (h : Trace.Reach step (Crowd.Permits contract) Idle m) :
    ∀ s ∈ m.host.accepted, Kept m.host s := by
  have hsound := Crowd.reach_sound control_lawful (fun m hm => ⟨hm.tidy,hm.threads⟩) h
  intro s hs
  rcases hsound.1.accepted s hs with ⟨-,hle,hheld⟩
  rcases Nat.lt_or_eq_of_le hle with hlt | heq
  · exact Or.inl hlt
  · right
    rcases hheld heq with (he | hf) | hst
    · exact Or.inl he
    · exact Or.inr (Or.inl hf)
    · rcases hsound.1.requested s hs heq with (he | hf) | hr
      · exact Or.inl he
      · exact Or.inr (Or.inl hf)
      · exact Or.inr (Or.inr ⟨hst,hr⟩)

end

instance decidableUntouched (h : Files) (i : ℕ) : (q : FileStep) → Decidable (Untouched h i q)
  | .unlinkRequest => inferInstanceAs (Decidable (_ ∧ _))
  | .unlink kind => inferInstanceAs (Decidable ((h.progress i).seen kind = some (h.writes kind)))
  | .now | .stage _ _ | .writeRequest _ | .activate | .hasRequest | .hasStaged _ | .check _
  | .hasTarget | .backup | .install _ | .hasPrevious | .restore | .envelope | .writeResult _
  | .publish => .isTrue trivial

instance (h : Files) (i : ℕ) (q : FileStep) : Decidable (contract.may h i q) :=
  decidableUntouched h i q

instance (h : Files) (s : Stamp) : Decidable (Kept h s) := inferInstanceAs (Decidable (_ ∨ _))

/-- A host to evaluate the runs on, where no text is refused. -/
@[reducible] def plainScript : ScriptRuntime := ⟨fun _ _ => (true,""),"no file"⟩

@[reducible] def plainControl : ControlRuntime := ⟨fun _ => none,fun _ => none⟩

theorem empty_idle : Idle {host := {}} :=
  ⟨rfl,fun _ => rfl,fun _ => rfl,(fun _ _ _ h => by cases h),rfl⟩

/-- A policy is staged and made effective, and another one is staged. -/
def servedRun : List (Move HostEvent Caller) :=
  ([.begin (.stage (some "a") none)] : List (Move HostEvent Caller)) ++
  List.replicate 3 (Move.proceed 0) ++
  ([.begin .applyScript] : List (Move HostEvent Caller)) ++
  List.replicate 13 (Move.proceed 1) ++
  ([.begin (.stage (some "b") none)] : List (Move HostEvent Caller)) ++
  List.replicate 3 (Move.proceed 2)

/-- The other policy is staged when the script has made the first one effective and has not yet
removed the files. -/
def lostRun : List (Move HostEvent Caller) :=
  ([.begin (.stage (some "a") none)] : List (Move HostEvent Caller)) ++
  List.replicate 3 (Move.proceed 0) ++
  ([.begin .applyScript] : List (Move HostEvent Caller)) ++
  List.replicate 7 (Move.proceed 1) ++
  ([.begin (.stage (some "b") none)] : List (Move HostEvent Caller)) ++
  List.replicate 3 (Move.proceed 2) ++
  List.replicate 7 (Move.proceed 1)

theorem staged_texts_kept_served : letI := plainScript; letI := plainControl;
    let m := servedRun.foldl step {host := {}}
    m.host.accepted = [⟨.policy,1,"a"⟩,⟨.policy,2,"b"⟩] ∧ ∀ s ∈ m.host.accepted, Kept m.host s := by
  let := plainScript
  let := plainControl
  exact ⟨by decide +kernel,staged_texts_kept _
    (@Trace.Reach.run _ _ _ _ _ _ (.start empty_idle) servedRun (by decide +kernel))⟩

/-- The script removes a policy that it has never read. -/
theorem staged_policy_lost : letI := plainScript; letI := plainControl;
    ∃ m : HostControl, Trace.Reach step (fun _ _ => True) Idle m ∧
      ¬∀ s ∈ m.host.accepted, Kept m.host s := by
  let := plainScript
  let := plainControl
  exact ⟨lostRun.foldl step {host := {}},(Trace.Reach.start empty_idle).steps lostRun,
    by decide +kernel⟩

end Control
end Atlas
