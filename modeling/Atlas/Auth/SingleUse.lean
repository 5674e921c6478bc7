import Atlas.Auth.Service

/-! A challenge is used at most once and at most one credential is enrolled, as long as no request
commits after another one has enrolled or used the same challenge since it looked. -/
namespace Atlas
namespace Auth

open Actions Dialogue Shared

/-- No challenge that is committed has been used, challenges become known with their rows, and
uncommitted ones are new. -/
structure Consistent (d : Database) : Prop where
  unused : ∀ c ∈ d.challenges, c.1 ∈ d.known ∧ c.1 ∉ d.enrolments ∧ c.1 ∉ d.openings
  used : ∀ id, id ∈ d.enrolments ∨ id ∈ d.openings → id ∈ d.known
  issued : ∀ id ∈ d.known, id < d.issued
  fresh : ∀ i, ∀ c ∈ (d.pending i).challenges, c.1 ∉ d.known ∧ c.1 < d.issued
  apart : ∀ i j, i ≠ j → ∀ c ∈ (d.pending i).challenges, ∀ e ∈ (d.pending j).challenges,
    c.1 ≠ e.1
  found : ∀ i id n, (d.pending i).found = some (id,n) → id ∈ d.known ∧ n = 0
  enrolled : d.enrolments ≠ [] → d.credentials ≠ []
  single : d.enrolments.length ≤ 1
  once : ∀ id, d.openings.count id ≤ 1

/-- A request commits only if, since it looked, nobody else has committed an enrolment (for a
request that enrols) or a use of its challenge. -/
def Undisturbed (d : Database) (i : ℕ) : Statement → Prop
  | .commit =>
      ((d.pending i).credentials ≠ [] → (d.pending i).checked = some d.enrolments.length) ∧
        ∀ c ∈ (d.pending i).sessions, (d.pending i).found = some (c.1,d.openings.count c.1)
  | _ => True

def contract : Contract Database Statement where
  inv := Consistent
  does i d d' := ∀ j, j ≠ i → d'.pending j = d.pending j
  may := Undisturbed

section

variable {i : ℕ}

/-- What a transaction has written is not touched by the others. -/
theorem pending_lasting (R : Pending → Prop) :
    shared.Lasting contract i fun d => R (d.pending i) := by
  rintro d d' ⟨-,-,⟨e,rfl⟩ | ⟨j,hj,hd⟩⟩ hR
  · cases e <;> exact hR
  · rw [hd i hj.symm]
    exact hR

@[simp] theorem write_pending (d : Database) (i : ℕ) (p : Pending) :
    (d.write i p).pending i = p := by simp [Database.write]

theorem write_others (d : Database) (p : Pending) : ∀ j, j ≠ i →
    (d.write i p).pending j = d.pending j := by
  intro j hj
  simp [Database.write,hj]

theorem Consistent.write {d : Database} (h : Consistent d) {p : Pending}
    (hc : p.challenges = (d.pending i).challenges)
    (hf : ∀ id n, p.found = some (id,n) → id ∈ d.known ∧ n = 0) : Consistent (d.write i p) := by
  have hch : ∀ j, ((d.write i p).pending j).challenges = (d.pending j).challenges := by
    intro j
    by_cases hj : j = i
    · rw [hj,write_pending,hc]
    · rw [write_others d p j hj]
  refine ⟨h.unused,h.used,h.issued,fun j => ?_,fun j k hjk => ?_,fun j => ?_,h.enrolled,h.single,
    h.once⟩
  · rw [hch]
    exact h.fresh j
  · rw [hch,hch]
    exact h.apart j k hjk
  · by_cases hj : j = i
    · rw [hj,write_pending]
      exact hf
    · rw [write_others d p j hj]
      exact h.found j

variable {α : Type} {Post : Except AuthError α → Database → Prop} {R : Pending → Prop}
  {s : Database}

/-- A statement that only reads. -/
theorem read_honours {q : Statement} {k : q.Answer → Transaction α}
    (hread : ∀ (d : Database) r u, d.answer i q = some (r,u) → u = d) (hs : R (s.pending i))
    (h : ∀ r (d : Database), R (d.pending i) → shared.Honours contract i Post (k r) d) :
    shared.Honours contract i Post (.ask q k) s := by
  refine Honours.ask (pending_lasting R) hs fun d hd hi _ r u hu => ?_
  rw [hread d r u hu]
  exact ⟨hi,fun _ _ => rfl,h r d hd⟩

/-- A statement that writes rows of its own transaction. -/
theorem write_honours {q : Statement} {k : q.Answer → Transaction α} (hs : R (s.pending i))
    (h : ∀ d : Database, Consistent d → R (d.pending i) → ∀ r u, d.answer i q = some (r,u) →
      ∃ p, u = d.write i p ∧ p.challenges = (d.pending i).challenges ∧
        (∀ id n, p.found = some (id,n) → id ∈ d.known ∧ n = 0) ∧
        ∀ d' : Database, d'.pending i = p → shared.Honours contract i Post (k r) d') :
    shared.Honours contract i Post (.ask q k) s := by
  refine Honours.ask (pending_lasting R) hs fun d hd hi _ r u hu => ?_
  rcases h d hi hd r u hu with ⟨p,rfl,hc,hf,hk⟩
  exact ⟨hi.write hc hf,write_others d p,hk _ (write_pending d i p)⟩

end

/-- What a transaction has written when it commits: at most one credential and one session, of a
challenge that it found unused and deletes. -/
structure Ready (p : Pending) : Prop where
  enrols : p.credentials = [] ∨ ∃ c, p.credentials = [c] ∧ p.checked = some 0 ∧
    p.found = some (c.1,0) ∧ c.1 ∈ p.deleted
  opens : p.sessions = [] ∨ ∃ c, p.sessions = [c] ∧ p.found = some (c.1,0) ∧ c.1 ∈ p.deleted

theorem Ready.enrolled {p : Pending} (h : Ready p) : ∀ id ∈ p.credentials.map (·.1),
    p.found = some (id,0) ∧ id ∈ p.deleted := by
  intro id hid
  rcases h.enrols with hn | ⟨c,hc,-,hf,hd⟩
  · rw [hn] at hid
    cases hid
  · rw [hc,List.map_singleton,List.mem_singleton] at hid
    rw [hid]
    exact ⟨hf,hd⟩

theorem Ready.opened {p : Pending} (h : Ready p) : ∀ id ∈ p.sessions.map (·.1),
    p.found = some (id,0) ∧ id ∈ p.deleted := by
  intro id hid
  rcases h.opens with hn | ⟨c,hc,hf,hd⟩
  · rw [hn] at hid
    cases hid
  · rw [hc,List.map_singleton,List.mem_singleton] at hid
    rw [hid]
    exact ⟨hf,hd⟩

section

variable {d : Database} {i : ℕ}

theorem mem_visibleChallenges {c : ℕ × ChallengeRow} : c ∈ d.visibleChallenges i ↔
    (c ∈ d.challenges ∨ c ∈ (d.pending i).challenges) ∧ c.1 ∉ (d.pending i).deleted := by
  simp [Database.visibleChallenges,List.mem_filter,or_and_right]

theorem visibleCredentials_eq_nil : d.visibleCredentials i = [] ↔
    d.credentials = [] ∧ (d.pending i).credentials = [] := by
  simp [Database.visibleCredentials]

theorem commit_pending (j : ℕ) :
    (d.commit i).pending j = if j = i then {} else d.pending j := by
  by_cases hj : j = i
  · simp [Database.commit,Database.write,hj]
  · simp [Database.commit,Database.write,hj]

/-- The step lemma: a commit that nothing has overtaken. -/
theorem Consistent.commit (h : Consistent d) (hr : Ready (d.pending i))
    (hu : Undisturbed d i .commit) : Consistent (d.commit i) := by
  have hknown : ∀ id, (d.pending i).found = some (id,0) → id ∈ d.known := fun id hf =>
    (h.found i id 0 hf).1
  have hown : ∀ c ∈ (d.pending i).challenges, c.1 ∉ d.known := fun c hc => (h.fresh i c hc).1
  constructor
  · intro c hc
    rcases mem_visibleChallenges.mp hc with ⟨hmem,hdel⟩
    have hne : c.1 ∉ (d.pending i).credentials.map (·.1) := fun hin => hdel (hr.enrolled _ hin).2
    have hno : c.1 ∉ (d.pending i).sessions.map (·.1) := fun hin => hdel (hr.opened _ hin).2
    simp only [Database.commit,List.mem_append,not_or]
    rcases hmem with hmem | hmem
    · have := h.unused c hmem
      exact ⟨Or.inl this.1,⟨this.2.1,hne⟩,this.2.2,hno⟩
    · have hnk := hown c hmem
      exact ⟨Or.inr (List.mem_map_of_mem hmem),
        ⟨fun hin => hnk (h.used _ (Or.inl hin)),hne⟩,fun hin => hnk (h.used _ (Or.inr hin)),hno⟩
  · intro id hid
    simp only [Database.commit,List.mem_append] at hid ⊢
    rcases hid with (hid | hid) | hid | hid
    · exact Or.inl (h.used id (Or.inl hid))
    · exact Or.inl (hknown id (hr.enrolled id hid).1)
    · exact Or.inl (h.used id (Or.inr hid))
    · exact Or.inl (hknown id (hr.opened id hid).1)
  · intro id hid
    simp only [Database.commit,List.mem_append] at hid
    rcases hid with hid | hid
    · exact h.issued id hid
    · rcases List.mem_map.mp hid with ⟨c,hc,rfl⟩
      exact (h.fresh i c hc).2
  · intro j c hc
    rw [commit_pending] at hc
    split at hc
    · cases hc
    · next hj =>
      refine ⟨?_,(h.fresh j c hc).2⟩
      simp only [Database.commit,List.mem_append,not_or]
      refine ⟨(h.fresh j c hc).1,fun hin => ?_⟩
      rcases List.mem_map.mp hin with ⟨e,he,heq⟩
      exact h.apart i j (Ne.symm hj) e he c hc heq
  · intro j k hjk c hc e he
    rw [commit_pending] at hc he
    split at hc
    · cases hc
    · split at he
      · cases he
      · exact h.apart j k hjk c hc e he
  · intro j id n hf
    rw [commit_pending] at hf
    split at hf
    · cases hf
    · exact ⟨List.mem_append_left _ (h.found j id n hf).1,(h.found j id n hf).2⟩
  · intro hne hnil
    have hnil' := visibleCredentials_eq_nil.mp hnil
    apply hne
    simp only [Database.commit,hnil'.2,List.map_nil,List.append_nil]
    exact not_not.mp fun hold => h.enrolled hold hnil'.1
  · simp only [Database.commit]
    rcases hr.enrols with hn | ⟨c,hc,hchecked,-⟩
    · simpa [hn] using h.single
    · have hzero := hu.1 (by simp [hc])
      rw [hchecked,Option.some.injEq] at hzero
      simp [hc,← hzero]
  · intro id
    simp only [Database.commit,List.count_append]
    rcases hr.opens with hn | ⟨c,hc,hf,-⟩
    · simpa [hn] using h.once id
    · have hzero := hu.2 c (by simp [hc])
      rw [hf,Option.some.injEq,Prod.mk.injEq] at hzero
      rw [hc,List.map_singleton,List.count_singleton]
      by_cases hid : c.1 = id
      · rw [← hid,← hzero.2]
        simp
      · simpa [hid] using h.once id

end

section

variable {i : ℕ} {s : Database} {α : Type}

/-- A part of a request that ends well leaves what its transaction has written in a given shape. -/
def Leaves (i : ℕ) (R : Pending → Prop) : Except AuthError α → Database → Prop
  | .ok _, d => R (d.pending i)
  | .error _, _ => True

variable {R T : Pending → Prop}

theorem leaves_done (a : α) (hs : R (s.pending i)) :
    shared.Honours contract i (Leaves i R) (.done (.ok a)) s :=
  Honours.done (pending_lasting R) hs fun _ hu => hu

theorem leaves_error (e : AuthError) :
    shared.Honours contract i (Leaves i R) (.done (.error e) : Transaction α) s :=
  Honours.done lasting_true trivial fun _ _ => trivial

theorem leaves_bind {β : Type} {p : Transaction α} {f : α → Transaction β}
    (h : shared.Honours contract i (Leaves i R) p s)
    (hf : ∀ a d, R (d.pending i) → shared.Honours contract i (Leaves i T) (f a) d) :
    shared.Honours contract i (Leaves i T) (p >>= f) s :=
  h.bind hf fun _ _ _ => trivial

/-- Nothing that comes from a challenge has been written. -/
def Clean (p : Pending) : Prop := p.credentials = [] ∧ p.sessions = [] ∧ p.challenges = []

def Checked (p : Pending) : Prop := Clean p ∧ p.checked = some 0

/-- The challenge has been found, unused. -/
def Holds (id : ℕ) (enrols : Prop) (p : Pending) : Prop :=
  Clean p ∧ p.found = some (id,0) ∧ (enrols → p.checked = some 0)

/-- The challenge is deleted, and its credential, if any, inserted. -/
def Flushed (id : ℕ) (p : Pending) : Prop :=
  p.sessions = [] ∧ p.found = some (id,0) ∧ id ∈ p.deleted ∧
    (p.credentials = [] ∨ ∃ row, p.credentials = [(id,row)] ∧ p.checked = some 0)

theorem read_leaves {q : Statement} {k : q.Answer → Transaction α}
    (hread : ∀ (d : Database) r u, d.answer i q = some (r,u) → u = d) (hs : R (s.pending i))
    (h : ∀ r (d : Database), R (d.pending i) →
      shared.Honours contract i (Leaves i T) (k r) d) :
    shared.Honours contract i (Leaves i T) (.ask q k) s := read_honours hread hs h

theorem now_reads (d : Database) (r : Instant) (u : Database)
    (h : d.answer i .now = some (r,u)) : u = d := by
  cases h
  rfl

theorem random_reads (d : Database) (r : String) (u : Database)
    (h : d.answer i .random = some (r,u)) : u = d := by
  cases h
  rfl

theorem code_reads (d : Database) (r : Option String) (u : Database)
    (h : d.answer i .enrollmentCode = some (r,u)) : u = d := by
  cases h
  rfl

theorem findCredential_reads {credentialId : String} (d : Database) (r : Option CredentialRow)
    (u : Database) (h : d.answer i (.findCredential credentialId) = some (r,u)) : u = d := by
  cases h
  rfl

/-- The deletion of expired rows does not change the shape. -/
theorem prune_leaves (flush : Transaction Unit) (hs : R (s.pending i))
    (hflush : ∀ d : Database, R (d.pending i) →
      shared.Honours contract i (Leaves i T) flush d)
    (hprune : ∀ p deleted dropped, T p →
      T {p with deleted := p.deleted ++ deleted, dropped := p.dropped ++ dropped}) :
    shared.Honours contract i (Leaves i T) (pruneExpired flush) s := by
  unfold pruneExpired ask
  rw [Prog.request_bind]
  refine read_leaves now_reads hs fun now d hd => leaves_bind (hflush d hd) fun _ d hd => ?_
  refine write_honours hd fun d hi hd r u hu => ?_
  simp only [Database.answer] at hu
  split at hu
  · cases hu
  · cases hu
    refine ⟨_,rfl,rfl,fun id n hf => hi.found i id n hf,fun d' hd' => ?_⟩
    have hR : T (d'.pending i) := by
      rw [hd']
      simpa using hprune _ _ [] hd
    refine write_honours hR fun d hi hd r u hu => ?_
    simp only [Database.answer] at hu
    split at hu
    · cases hu
    · cases hu
      refine ⟨_,rfl,rfl,fun id n hf => hi.found i id n hf,fun d' hd' => leaves_done () ?_⟩
      rw [hd']
      simpa using hprune _ [] _ hd

theorem clean_prune (p : Pending) (deleted : List ℕ) (dropped : List String) (h : Clean p) :
    Clean {p with deleted := p.deleted ++ deleted, dropped := p.dropped ++ dropped} := h

theorem flushed_prune (id : ℕ) (p : Pending) (deleted : List ℕ) (dropped : List String)
    (h : Flushed id p) :
    Flushed id {p with deleted := p.deleted ++ deleted, dropped := p.dropped ++ dropped} :=
  ⟨h.1,h.2.1,List.mem_append_left _ h.2.2.1,h.2.2.2⟩

/-- Where no credential is seen none has been enrolled. -/
theorem anyCredential_leaves {k : Bool → Transaction α} (hs : Clean (s.pending i))
    (htrue : ∀ d : Database, Clean (d.pending i) →
      shared.Honours contract i (Leaves i R) (k true) d)
    (hfalse : ∀ d : Database, Checked (d.pending i) →
      shared.Honours contract i (Leaves i R) (k false) d) :
    shared.Honours contract i (Leaves i R) (.ask .anyCredential k) s := by
  refine write_honours hs fun d hi hd r u hu => ?_
  simp only [Database.answer,Option.some.injEq,Prod.mk.injEq] at hu
  rcases hu with ⟨rfl,rfl⟩
  refine ⟨_,rfl,rfl,fun id n hf => hi.found i id n hf,fun d' hd' => ?_⟩
  cases hv : d.visibleCredentials i with
  | cons row rows => exact htrue d' (by rw [hd']; exact hd)
  | nil =>
    have hnone : d.enrolments = [] :=
      not_not.mp fun hne => hi.enrolled hne (visibleCredentials_eq_nil.mp hv).1
    refine hfalse d' ?_
    rw [hd']
    exact ⟨hd,by simp [hnone]⟩

theorem checkEnrollment_leaves (code : String) (hs : Clean (s.pending i)) :
    shared.Honours contract i (Leaves i Checked) (checkEnrollment code) s := by
  refine anyCredential_leaves hs (fun d _ => leaves_error _) fun d hd => ?_
  refine read_leaves code_reads hd fun text d hd => ?_
  cases text with
  | none => exact leaves_error _
  | some text =>
    simp only [Prog.done_bind]
    by_cases hc : (code != "" && Memory.strip code == Memory.strip text) = true
    · simp only [hc]
      exact leaves_done () hd
    · simp only [hc]
      exact leaves_error _

theorem Consistent.insert {d : Database} (h : Consistent d) (row : ChallengeRow) :
    Consistent {d.write i {d.pending i with
      challenges := (d.pending i).challenges ++ [(d.issued,row)]} with issued := d.issued + 1} := by
  have hch : ∀ j, ∀ c ∈ ((d.write i {d.pending i with
      challenges := (d.pending i).challenges ++ [(d.issued,row)]}).pending j).challenges,
      c ∈ (d.pending j).challenges ∨ (j = i ∧ c.1 = d.issued) := by
    intro j c hc
    by_cases hj : j = i
    · rw [hj,write_pending,List.mem_append,List.mem_singleton] at hc
      rcases hc with hc | hc
      · exact Or.inl (hj ▸ hc)
      · exact Or.inr ⟨hj,by rw [hc]⟩
    · rw [write_others d _ j hj] at hc
      exact Or.inl hc
  refine ⟨h.unused,h.used,fun id hid => Nat.lt_succ_of_lt (h.issued id hid),fun j c hc => ?_,
    fun j k hjk c hc e he => ?_,fun j id n hf => ?_,h.enrolled,h.single,h.once⟩
  · rcases hch j c hc with hold | ⟨-,hnew⟩
    · exact ⟨(h.fresh j c hold).1,Nat.lt_succ_of_lt (h.fresh j c hold).2⟩
    · rw [hnew]
      exact ⟨fun hin => absurd (h.issued _ hin) (Nat.lt_irrefl _),Nat.lt_succ_self _⟩
  · rcases hch j c hc with hold | ⟨hj,hnew⟩
    · rcases hch k e he with hold' | ⟨-,hnew'⟩
      · exact h.apart j k hjk c hold e hold'
      · rw [hnew']
        exact Nat.ne_of_lt (h.fresh j c hold).2
    · rcases hch k e he with hold' | ⟨hk,-⟩
      · rw [hnew]
        exact (Nat.ne_of_lt (h.fresh k e hold').2).symm
      · exact absurd (hj.trans hk.symm) hjk
  · by_cases hj : j = i
    · rw [hj] at hf
      simp only [write_pending] at hf
      exact h.found i id n hf
    · simp only [write_others d _ j hj] at hf
      exact h.found j id n hf

theorem commit_leaves {k : Unit → Transaction α} (hs : Ready (s.pending i))
    (h : ∀ d, shared.Honours contract i (Leaves i fun _ => True) (k ()) d) :
    shared.Honours contract i (Leaves i fun _ => True) (.ask .commit k) s := by
  refine Honours.ask (pending_lasting Ready) hs fun d hd hi hm r u hu => ?_
  cases hu
  refine ⟨hi.commit hd hm,fun j hj => ?_,h _⟩
  rw [commit_pending,if_neg hj]

theorem Clean.ready {p : Pending} (h : Clean p) : Ready p := ⟨Or.inl h.1,Or.inl h.2.1⟩

theorem issueChallenge_leaves (kind : ChallengeKind) (userHandle : Option String)
    (hs : Clean (s.pending i)) :
    shared.Honours contract i (Leaves i fun _ => True) (issueChallenge kind userHandle) s := by
  unfold issueChallenge ask
  refine read_leaves random_reads hs fun challenge d hd => ?_
  refine read_leaves now_reads hd fun now d hd => ?_
  refine Honours.ask (pending_lasting Clean) hd fun d hd hi _ r u hu => ?_
  simp only [shared,Database.answer,Option.some.injEq,Prod.mk.injEq] at hu
  rcases hu with ⟨rfl,rfl⟩
  refine ⟨hi.insert _,fun j hj => write_others d _ j hj,?_⟩
  refine commit_leaves ?_ fun d => leaves_done _ trivial
  simp only [write_pending]
  exact ⟨Or.inl hd.1,Or.inl hd.2.1⟩

theorem registrationOptions_leaves (code : String) (hs : Clean (s.pending i)) :
    shared.Honours contract i (Leaves i fun _ => True) (registrationOptions code) s := by
  unfold registrationOptions
  refine leaves_bind (prune_leaves (T := Clean) _ hs (fun d hd => leaves_done () hd) clean_prune)
    fun _ d hd => ?_
  refine leaves_bind (checkEnrollment_leaves code hd) fun _ d hd => ?_
  exact read_leaves random_reads hd fun handle d hd => issueChallenge_leaves _ _ hd.1

theorem loginOptions_leaves (hs : Clean (s.pending i)) :
    shared.Honours contract i (Leaves i fun _ => True) loginOptions s := by
  unfold loginOptions
  refine leaves_bind (prune_leaves (T := Clean) _ hs (fun d hd => leaves_done () hd) clean_prune)
    fun _ d hd => ?_
  exact anyCredential_leaves hd (fun d hd => issueChallenge_leaves _ _ hd)
    fun d _ => leaves_error _

/-- A challenge that is found has not been used. -/
theorem findChallenge_leaves (id : ℕ) (kind : ChallengeKind) {R : Pending → Prop} {e : Prop}
    (hR : ∀ p, R p → Clean p ∧ (e → p.checked = some 0))
    (hs : R (s.pending i)) :
    shared.Honours contract i (Leaves i (Holds id e)) (findChallenge id kind) s := by
  unfold findChallenge ask
  rw [Prog.request_bind]
  refine Honours.ask (pending_lasting R) hs fun d hd hi _ r u hu => ?_
  simp only [shared,Database.answer] at hu
  split at hu
  · next c hc =>
    have hid : c.1 = id := by simpa using List.find?_some hc
    have hmem : c ∈ d.challenges := by
      have := (mem_visibleChallenges.mp (List.mem_of_find?_eq_some hc)).1
      rwa [(hR _ hd).1.2.2,or_iff_left List.not_mem_nil] at this
    have hunused := hi.unused c hmem
    rw [hid] at hunused
    have hcount : d.openings.count id = 0 := List.count_eq_zero.mpr hunused.2.2
    simp only [Option.some.injEq,Prod.mk.injEq] at hu
    rcases hu with ⟨rfl,rfl⟩
    have hholds : Holds id e ({d.pending i with found := some (id,d.openings.count id)}) :=
      ⟨(hR _ hd).1,by rw [hcount],(hR _ hd).2⟩
    refine ⟨hi.write rfl fun id' n hf => ?_,write_others d _,?_⟩
    · simp only [Option.some.injEq,Prod.mk.injEq] at hf
      rw [← hf.1,← hf.2]
      exact ⟨hunused.1,hcount⟩
    · rw [← write_pending d i {d.pending i with found := some (id,d.openings.count id)}] at hholds
      simp only [Prog.request_bind]
      split
      · exact leaves_error _
      · refine read_leaves now_reads hholds fun now d hd => ?_
        split
        · exact leaves_error _
        · exact leaves_done _ hd
  · cases hu
    exact ⟨hi,fun _ _ => rfl,leaves_error _⟩

theorem deleteChallenge_leaves (id : ℕ) (hR : ∀ p, R p → T {p with deleted := p.deleted ++ [id]})
    (hs : R (s.pending i)) :
    shared.Honours contract i (Leaves i T) (ask (.deleteChallenge id)) s := by
  refine write_honours hs fun d hi hd r u hu => ?_
  simp only [Database.answer] at hu
  split at hu
  · cases hu
  · cases hu
    refine ⟨_,rfl,rfl,fun id n hf => hi.found i id n hf,fun d' hd' => leaves_done () ?_⟩
    rw [hd']
    exact hR _ hd

theorem flushEnrolment_leaves (id : ℕ) (row : CredentialRow) (hs : Holds id True (s.pending i)) :
    shared.Honours contract i (Leaves i (Flushed id)) (flushEnrolment id row) s := by
  unfold flushEnrolment ask
  rw [Prog.request_bind]
  refine write_honours hs fun d hi hd r u hu => ?_
  simp only [Database.answer] at hu
  split at hu
  · cases hu
  · split at hu
    · cases hu
      exact ⟨d.pending i,by simp [Database.write],rfl,fun id n hf => hi.found i id n hf,
        fun d' _ => leaves_error _⟩
    · cases hu
      refine ⟨_,rfl,rfl,fun id n hf => hi.found i id n hf,fun d' hd' => ?_⟩
      have hins : (d'.pending i).credentials = [(id,row)] ∧ (d'.pending i).sessions = [] ∧
          (d'.pending i).found = some (id,0) ∧ (d'.pending i).checked = some 0 := by
        rw [hd']
        exact ⟨by simp [hd.1.1],hd.1.2.1,hd.2.1,hd.2.2 trivial⟩
      refine deleteChallenge_leaves (R := fun p => p.credentials = [(id,row)] ∧ p.sessions = [] ∧
        p.found = some (id,0) ∧ p.checked = some 0) id (fun p hp => ?_) hins
      exact ⟨hp.2.1,hp.2.2.1,by simp,Or.inr ⟨row,hp.1,hp.2.2.2⟩⟩

theorem flushLogin_leaves (id : ℕ) (credentialId : String) (usage : Usage)
    (hs : Holds id False (s.pending i)) :
    shared.Honours contract i (Leaves i (Flushed id)) (flushLogin id credentialId usage) s := by
  unfold flushLogin ask
  rw [Prog.request_bind]
  refine write_honours hs fun d hi hd r u hu => ?_
  simp only [Database.answer] at hu
  split at hu
  · cases hu
  · cases hu
    refine ⟨_,rfl,rfl,fun id n hf => hi.found i id n hf,fun d' hd' => ?_⟩
    refine deleteChallenge_leaves (R := Holds id False) id (fun p hp => ?_) ?_
    · exact ⟨hp.1.2.1,hp.2.1,by simp,Or.inl hp.1.1⟩
    · rw [hd']
      exact hd

theorem Flushed.ready {id : ℕ} {p : Pending} (h : Flushed id p) (row : SessionRow) :
    Ready {p with sessions := p.sessions ++ [(id,row)]} := by
  refine ⟨?_,Or.inr ⟨(id,row),by simp [h.1],h.2.1,h.2.2.1⟩⟩
  rcases h.2.2.2 with hn | ⟨row,hc,hchecked⟩
  · exact Or.inl hn
  · exact Or.inr ⟨(id,row),hc,hchecked,h.2.1,h.2.2.1⟩

variable [AuthRuntime]

theorem createSession_leaves (config : AuthConfig) (id : ℕ) (flush : Transaction Unit)
    (hs : R (s.pending i)) (hflush : ∀ d : Database, R (d.pending i) →
      shared.Honours contract i (Leaves i (Flushed id)) flush d) :
    shared.Honours contract i (Leaves i fun _ => True) (createSession config id flush) s := by
  unfold createSession
  refine leaves_bind (prune_leaves flush hs hflush (flushed_prune id)) fun _ d hd => ?_
  unfold ask
  simp only [Prog.request_bind]
  refine read_leaves random_reads hd fun token d hd => ?_
  refine read_leaves now_reads hd fun now d hd => ?_
  refine read_leaves now_reads hd fun seen d hd => ?_
  refine write_honours hd fun d hi hd r u hu => ?_
  simp only [Database.answer] at hu
  split at hu
  · cases hu
  · split at hu
    · cases hu
      exact ⟨d.pending i,by simp [Database.write],rfl,fun id n hf => hi.found i id n hf,
        fun d' _ => leaves_error _⟩
    · cases hu
      refine ⟨_,rfl,rfl,fun id n hf => hi.found i id n hf,fun d' hd' => ?_⟩
      refine commit_leaves ?_ fun d => leaves_done _ trivial
      rw [hd']
      exact hd.ready _

theorem verifyRegistration_leaves (config : AuthConfig) (id : ℕ) (code : String)
    (credential : Dict) (hs : Clean (s.pending i)) :
    shared.Honours contract i (Leaves i fun _ => True)
      (verifyRegistration config id code credential) s := by
  unfold verifyRegistration
  refine leaves_bind (checkEnrollment_leaves code hs) fun _ d hd => ?_
  refine leaves_bind (findChallenge_leaves id .register (e := True)
    (fun p hp => ⟨hp.1,fun _ => hp.2⟩) hd) fun challenge d hd => ?_
  split
  · exact leaves_error _
  · exact createSession_leaves config id _ hd fun d hd => flushEnrolment_leaves id _ hd

theorem verifyLogin_leaves (config : AuthConfig) (id : ℕ) (credential : Dict)
    (hs : Clean (s.pending i)) :
    shared.Honours contract i (Leaves i fun _ => True) (verifyLogin config id credential) s := by
  unfold verifyLogin
  refine leaves_bind (findChallenge_leaves id .login (e := False)
    (fun p hp => ⟨hp,fun h => h.elim⟩) hs) fun challenge d hd => ?_
  split
  · exact leaves_error _
  · refine read_leaves findCredential_reads hd fun row d hd => ?_
    simp only [Prog.done_bind]
    split
    · exact leaves_error _
    · split
      · exact leaves_error _
      · refine read_leaves now_reads hd fun now d hd => ?_
        exact createSession_leaves config id _ hd fun d hd => flushLogin_leaves id _ _ hd

theorem serve_leaves (config : AuthConfig) (call : AuthCall) (hs : Clean (s.pending i)) :
    shared.Honours contract i (Leaves i fun _ => True) (serve config call) s := by
  cases call with
  | registerOptions code => exact registrationOptions_leaves code hs
  | registerVerify id code credential => exact verifyRegistration_leaves config id code credential hs
  | loginOptions => exact loginOptions_leaves hs
  | loginVerify id credential => exact verifyLogin_leaves config id credential hs

end

theorem Consistent.clear {d : Database} (h : Consistent d) (i : ℕ) : Consistent (d.clear i) := by
  have hpend : ∀ j, (d.clear i).pending j = if j = i then {} else d.pending j := by
    intro j
    by_cases hj : j = i <;> simp [Database.clear,Database.write,hj]
  refine ⟨h.unused,h.used,h.issued,fun j c hc => ?_,fun j k hjk c hc e he => ?_,
    fun j id n hf => ?_,h.enrolled,h.single,h.once⟩
  · rw [hpend] at hc
    split at hc
    · cases hc
    · exact h.fresh j c hc
  · rw [hpend] at hc he
    split at hc
    · cases hc
    · split at he
      · cases he
      · exact h.apart j k hjk c hc e he
  · rw [hpend] at hf
    split at hf
    · cases hf
    · exact h.found j id n hf

theorem clear_others (d : Database) (i j : ℕ) (hj : j ≠ i) :
    (d.clear i).pending j = d.pending j := by
  simp [Database.clear,Database.write,hj]

section

variable [AuthRuntime]

theorem login_lawful (config : AuthConfig) :
    Crowd.Lawful shared (serve config) contract fun _ i => Leaves i fun _ => True where
  stir d e h := by
    cases e <;> exact ⟨h.unused,h.used,h.issued,h.fresh,h.apart,h.found,h.enrolled,h.single,h.once⟩
  enter d i c h := by
    refine ⟨h.clear i,clear_others d i,serve_leaves config c ?_⟩
    simp [shared,Database.clear,Database.write,Clean]
  leave d i h := ⟨h.clear i,clear_others d i⟩

/-- The service before its first request: no challenge is open and nothing has been used. -/
structure Unused (m : Login) : Prop where
  threads : m.threads = []
  challenges : m.host.challenges = []
  known : m.host.known = []
  enrolments : m.host.enrolments = []
  openings : m.host.openings = []
  pending : ∀ i, m.host.pending i = {}

omit [AuthRuntime] in
theorem Unused.consistent {m : Login} (h : Unused m) : Consistent m.host := by
  constructor
  · rw [h.challenges]
    exact fun c hc => by cases hc
  · rw [h.enrolments,h.openings]
    exact fun id hid => by simp at hid
  · rw [h.known]
    exact fun id hid => by cases hid
  · intro i c hc
    rw [h.pending] at hc
    cases hc
  · intro i j _ c hc
    rw [h.pending] at hc
    cases hc
  · intro i id n hf
    rw [h.pending] at hf
    cases hf
  · exact fun hne => absurd h.enrolments hne
  · simp [h.enrolments]
  · simp [h.openings]

/-- In every run whose commits nothing has overtaken, at most one credential is enrolled, and no
challenge leads to two credentials or two sessions. -/
theorem passkey_single_use (config : AuthConfig) (m : Login)
    (h : Trace.Reach (step config) (Crowd.Permits contract) Unused m) :
    m.host.enrolments.length ≤ 1 ∧
      ∀ id, m.host.enrolments.count id ≤ 1 ∧ m.host.openings.count id ≤ 1 := by
  have hsound := Crowd.reach_sound (login_lawful config)
    (fun m hm => ⟨hm.consistent,hm.threads⟩) h
  exact ⟨hsound.1.single,fun id =>
    ⟨(List.count_le_length).trans hsound.1.single,hsound.1.once id⟩⟩

end

instance decidableUndisturbed (d : Database) (i : ℕ) :
    (q : Statement) → Decidable (Undisturbed d i q)
  | .commit => inferInstanceAs (Decidable (_ ∧ _))
  | .now | .random | .enrollmentCode | .pruneChallenges _ | .pruneSessions _ | .anyCredential
  | .insertChallenge _ | .getChallenge _ | .deleteChallenge _ | .findCredential _
  | .insertCredential _ _ | .updateCredential _ _ | .insertSession _ _ => .isTrue trivial

instance (d : Database) (i : ℕ) (q : Statement) : Decidable (contract.may d i q) :=
  decidableUndisturbed d i q

/-- A runtime to evaluate the service with: every credential that names an id verifies. -/
@[reducible] def plainAuth : AuthRuntime where
  verifyRegistration credential _ _ _ :=
    match credentialIdOf credential with
    | some id => .ok {
        credentialId := id
        publicKey := "key"
        signCount := 0
        deviceType := none
        backedUp := false}
    | none => .error "no id"
  verifyAuthentication _ _ _ _ _ _ := .ok {
    newSignCount := 1
    deviceType := "single_device"
    backedUp := false}
  base64urlToBytes id := id
  sha256 token := token
  str _ := ""

def localConfig : AuthConfig := ⟨"localhost","http://localhost",24⟩

def newLogin : Login := {host := {codeFile := some "abc123", random := "a"}}

theorem newLogin_unused : Unused newLogin := ⟨rfl,rfl,rfl,rfl,rfl,fun _ => rfl⟩

/-- The owner asks for a challenge and enrols a passkey with it. -/
def enrolledRun : List (Move Occasion AuthCall) :=
  [Move.begin (AuthCall.registerOptions "abc123")] ++ List.replicate 10 (Move.proceed 0) ++
  [Move.begin (AuthCall.registerVerify 0 "abc123" [("id",.str "one")])] ++
  List.replicate 14 (Move.proceed 1)

/-- Two clients finish the registration with one challenge at a time. -/
def racedRun : List (Move Occasion AuthCall) :=
  [Move.begin (AuthCall.registerOptions "abc123")] ++ List.replicate 10 (Move.proceed 0) ++
  [Move.begin (AuthCall.registerVerify 0 "abc123" [("id",.str "one")]),
    Move.begin (AuthCall.registerVerify 0 "abc123" [("id",.str "two")])] ++
  List.replicate 5 (Move.proceed 1) ++ List.replicate 6 (Move.proceed 2) ++
  List.replicate 9 (Move.proceed 1) ++ [Move.stir (Occasion.entropy "b")] ++
  List.replicate 8 (Move.proceed 2)

theorem enrolledRun_reach : letI := plainAuth;
    Trace.Reach (step localConfig) (Crowd.Permits contract) Unused
      (enrolledRun.foldl (step localConfig) newLogin) :=
  letI := plainAuth
  (Trace.Reach.start newLogin_unused).run (by decide +kernel)

theorem passkey_single_use_enrolled : letI := plainAuth;
    let m := enrolledRun.foldl (step localConfig) newLogin
    m.host.enrolments = [0] ∧ m.host.openings.count 0 ≤ 1 := by
  let := plainAuth
  exact ⟨by decide +kernel,((passkey_single_use localConfig _ enrolledRun_reach).2 0).2⟩

/-- Two requests that look before either commits enrol two credentials with one challenge. -/
theorem challenge_used_twice : letI := plainAuth;
    ∃ m : Login, Trace.Reach (step localConfig) (fun _ _ => True) Unused m ∧
      ¬m.host.enrolments.length ≤ 1 ∧ ¬m.host.openings.count 0 ≤ 1 := by
  let := plainAuth
  exact ⟨racedRun.foldl (step localConfig) newLogin,
    (Trace.Reach.start newLogin_unused).steps racedRun,by decide +kernel,by decide +kernel⟩

end Auth
end Atlas
