import Atlas.Integrations.McpExchange

/-! Which message a call takes for the answer to its request, and which answers it leaves unread when
it reports that the server was silent. -/
namespace Atlas
namespace Integrations

open JsonText Evidence Chunks

def Reader.text (r : Reader) : List Char := r.buffer ++ r.chunks.flatten

/-- The complete lines that have been delivered and are not used up. -/
def completeLines (r : Reader) : List (List Char) := lines '\n' r.text

/-- What is delivered before the last chunk. -/
def Reader.earlier (r : Reader) : List Char := r.buffer ++ r.chunks.dropLast.flatten

/-- The lines that the last chunk completes. -/
def lastLines (r : Reader) (last : List Char) : List (List Char) :=
  lines '\n' (rest '\n' r.earlier ++ last)

/-- The lines that a client comes to read. A silent pipe has nothing to select behind its last
chunk, of which one line is read. -/
def readable (transport : Transport) (r : Reader) : List (List Char) :=
  match r.ending with
  | .broken => completeLines r
  | .closed => completeLines r ++ (if rest '\n' r.text = [] then [] else [rest '\n' r.text])
  | .silent =>
      match transport with
      | .socket => completeLines r
      | .stdio =>
          match r.chunks.getLast? with
          | none => []
          | some last => lines '\n' r.earlier ++ (lastLines r last).take 1

/-- The complete lines that stay in the text layer. -/
def hidden (transport : Transport) (r : Reader) : List (List Char) :=
  match transport,r.ending with
  | .stdio,.silent =>
      match r.chunks.getLast? with
      | none => completeLines r
      | some last => (lastLines r last).drop 1
  | _,_ => []

section

variable {transport : Transport} {r r' : Reader} {line buffer : List Char}
  {chunks : List (List Char)} {ending : Ending}

theorem hidden_of_not_silent (h : r.ending ≠ .silent) : hidden transport r = [] := by
  cases transport with
  | socket => rfl
  | stdio =>
    simp only [hidden]
    split
    · next hsilent => exact absurd hsilent h
    · rfl

/-- Every complete line is read or stays in the text layer. -/
theorem completeLines_eq (transport : Transport) (h : r.ending = .silent) :
    completeLines r = readable transport r ++ hidden transport r := by
  cases transport with
  | socket => simp [readable,hidden,h]
  | stdio =>
    simp only [readable,hidden,h]
    cases hlast : r.chunks.getLast? with
    | none => rfl
    | some last =>
      have hchunks := List.dropLast_append_getLast? last hlast
      have htext : r.text = r.earlier ++ last := by
        rw [Reader.text,← hchunks]
        simp [Reader.earlier]
      simp only []
      rw [completeLines,htext,lines_append,List.append_assoc,lastLines,List.take_append_drop]

theorem mem_completeLines (h : line ∈ hidden transport r) : line ∈ completeLines r := by
  by_cases hsilent : r.ending = .silent
  · rw [completeLines_eq transport hsilent]
    exact List.mem_append_right _ h
  · rw [hidden_of_not_silent hsilent] at h
    cases h

/-- What reading a line leaves of the text. -/
inductive ReadFrom (ending : Ending) (text : List Char) : LineRead → Prop
  | line {line : List Char} {r : Reader} : line ≠ [] → r.ending = ending →
      lines '\n' text = line :: completeLines r → rest '\n' text = rest '\n' r.text →
      ReadFrom ending text (.line line r)
  | last : ending = .closed → lines '\n' text = [] →
      ReadFrom ending text (.line (rest '\n' text) ⟨[],[],ending⟩)
  | waiting {r : Reader} : ending = .silent → lines '\n' text = [] →
      ReadFrom ending text (.waiting r)
  | failed {r : Reader} : ending = .broken → lines '\n' text = [] →
      ReadFrom ending text (.failed r)

theorem readFrom_spec (ending : Ending) (chunks : List (List Char)) : ∀ buffer : List Char,
    ReadFrom ending (buffer ++ chunks.flatten) (readFrom ending buffer chunks) := by
  induction chunks with
  | nil =>
    intro buffer
    rw [readFrom,List.flatten_nil]
    split
    · next line left hline =>
      refine .line (takeLine_eq hline).2 rfl (lines_takeLine hline []) ?_
      rw [rest_takeLine hline]
      simp [Reader.text]
    · next hnone =>
      rw [List.append_nil]
      have hlines := lines_none hnone
      have hrest := rest_none hnone
      cases ending with
      | silent => exact .waiting rfl hlines
      | closed =>
        have hlast : ReadFrom .closed buffer (.line (rest '\n' buffer) ⟨[],[],.closed⟩) :=
          .last rfl hlines
        rwa [hrest] at hlast
      | broken => exact .failed rfl hlines
  | cons chunk chunks ih =>
    intro buffer
    rw [readFrom]
    split
    · next line left hline =>
      exact .line (takeLine_eq hline).2 rfl (lines_takeLine hline _) (rest_takeLine hline _)
    · have hnext := ih (buffer ++ chunk)
      rwa [List.append_assoc] at hnext

theorem readable_stdio {last : List Char} (hs : r.ending = .silent)
    (hlast : r.chunks.getLast? = some last) :
    readable .stdio r = lines '\n' r.earlier ++ (lastLines r last).take 1 := by
  simp only [readable,hs,hlast]

theorem hidden_stdio {last : List Char} (hs : r.ending = .silent)
    (hlast : r.chunks.getLast? = some last) : hidden .stdio r = (lastLines r last).drop 1 := by
  simp only [hidden,hs,hlast]

/-- A line that is complete in front of all that is to come. -/
theorem readable_takeLine {left last : List Char}
    (hline : takeLine '\n' buffer = some (line,left)) (hlast : chunks.getLast? = some last) :
    readable .stdio ⟨buffer,chunks,.silent⟩ = line :: readable .stdio ⟨left,chunks,.silent⟩ ∧
      hidden .stdio ⟨left,chunks,.silent⟩ = hidden .stdio ⟨buffer,chunks,.silent⟩ := by
  rw [readable_stdio rfl hlast,readable_stdio rfl hlast,hidden_stdio rfl hlast,
    hidden_stdio rfl hlast]
  simp only [lastLines,Reader.earlier]
  rw [lines_takeLine hline,rest_takeLine hline]
  exact ⟨rfl,rfl⟩

/-- Over a silent pipe with bytes to come a line is read off the readable ones. -/
theorem readFrom_silent (chunks : List (List Char)) : ∀ {buffer line : List Char} {r : Reader},
    chunks ≠ [] → readFrom .silent buffer chunks = .line line r →
    readable .stdio ⟨buffer,chunks,.silent⟩ = line :: readable .stdio r ∧
      hidden .stdio r = hidden .stdio ⟨buffer,chunks,.silent⟩ := by
  induction chunks with
  | nil => exact fun hne => absurd rfl hne
  | cons chunk chunks ih =>
    intro buffer line r _ h
    obtain ⟨last,hlast⟩ : ∃ last, (chunk :: chunks).getLast? = some last :=
      ⟨_,List.getLast?_eq_some_getLast (List.cons_ne_nil _ _)⟩
    rw [readFrom] at h
    split at h
    · next hline =>
      obtain ⟨rfl,rfl⟩ := LineRead.line.inj h
      exact readable_takeLine hline hlast
    · next hnone =>
      cases chunks with
      | nil =>
        obtain rfl : chunk = last := Option.some.inj hlast
        rw [readFrom] at h
        split at h
        · next line' left hline =>
          obtain ⟨rfl,rfl⟩ := LineRead.line.inj h
          have hlines := lines_takeLine hline []
          rw [List.append_nil,List.append_nil] at hlines
          have hhidden : hidden .stdio ⟨buffer,[chunk],.silent⟩ = _ := hidden_stdio rfl hlast
          rw [readable_stdio rfl hlast,hhidden]
          simp only [lastLines,Reader.earlier,List.dropLast_singleton,List.flatten_nil,
            List.append_nil]
          rw [lines_none hnone,rest_none hnone,hlines]
          simp [readable,hidden,completeLines,Reader.text]
        · cases h
      | cons next more =>
        have hnext := ih (List.cons_ne_nil _ _) h
        have hlast' : (next :: more).getLast? = some last := by
          rwa [List.getLast?_cons_cons] at hlast
        have hearlier : (Reader.mk (buffer ++ chunk) (next :: more) .silent).earlier =
            (Reader.mk buffer (chunk :: next :: more) .silent).earlier := by
          simp [Reader.earlier]
        have hreadable : readable .stdio ⟨buffer ++ chunk,next :: more,.silent⟩ =
            readable .stdio ⟨buffer,chunk :: next :: more,.silent⟩ := by
          rw [readable_stdio rfl hlast',readable_stdio rfl hlast,lastLines,lastLines,hearlier]
        have hhidden : hidden .stdio ⟨buffer ++ chunk,next :: more,.silent⟩ =
            hidden .stdio ⟨buffer,chunk :: next :: more,.silent⟩ := by
          rw [hidden_stdio rfl hlast',hidden_stdio rfl hlast,lastLines,lastLines,hearlier]
        rwa [hreadable,hhidden] at hnext

/-- A line that is read is the first of the readable ones. -/
theorem readline_line (hs : transport = .stdio → r.selects = true) (h : readline r = .line line r')
    (hne : line ≠ []) : readable transport r = line :: readable transport r' ∧
      hidden transport r' = hidden transport r ∧ r'.ending = r.ending := by
  have hspec := readFrom_spec r.ending r.chunks r.buffer
  have hread : readFrom r.ending r.buffer r.chunks = .line line r' := h
  rw [hread] at hspec
  cases hspec with
  | line _ hending hlines hrest =>
    have hlines : completeLines r = line :: completeLines r' := hlines
    have hrest : rest '\n' r.text = rest '\n' r'.text := hrest
    have hsame : r.ending ≠ .silent → hidden transport r' = hidden transport r := fun hn => by
      rw [hidden_of_not_silent hn,hidden_of_not_silent fun h' => hn (hending.symm.trans h')]
    cases hkind : r.ending with
    | silent =>
      have hkind' := hending.trans hkind
      cases transport with
      | socket => exact ⟨by simp only [readable,hkind,hkind',hlines],rfl,hkind'⟩
      | stdio =>
        have hchunks : r.chunks ≠ [] := by
          have hselects := hs rfl
          simpa [Reader.selects,hkind] using hselects
        obtain ⟨buffer,chunks,ending⟩ := r
        obtain rfl : ending = .silent := hkind
        have hsilent := readFrom_silent chunks hchunks h
        exact ⟨hsilent.1,hsilent.2,hkind'⟩
    | closed =>
      have hkind' := hending.trans hkind
      refine ⟨?_,hsame (by rw [hkind]; decide),hkind'⟩
      simp only [readable,hkind,hkind',hlines,hrest,List.cons_append]
    | broken =>
      have hkind' := hending.trans hkind
      exact ⟨by simp only [readable,hkind,hkind',hlines],hsame (by rw [hkind]; decide),hkind'⟩
  | last hkind hlines =>
    have hlines : completeLines r = [] := hlines
    have hdone : readable transport ⟨[],[],.closed⟩ = [] := rfl
    have htext : r.buffer ++ r.chunks.flatten = r.text := rfl
    rw [htext] at hne ⊢
    refine ⟨?_,?_,rfl⟩
    · rw [hkind,hdone]
      simp only [readable,hkind,hlines,if_neg hne,List.nil_append]
    · rw [hidden_of_not_silent (by rw [hkind]; decide),
        hidden_of_not_silent (by rw [hkind]; decide)]

/-- A reading that gives no line leaves none to be read. -/
theorem readline_empty (transport : Transport) (h : readline r = .line [] r') :
    r.ending = .closed ∧ readable transport r = [] := by
  have hspec := readFrom_spec r.ending r.chunks r.buffer
  generalize hout : readFrom r.ending r.buffer r.chunks = out at hspec
  have hread : out = .line [] r' := hout.symm.trans h
  cases hspec with
  | line hne => exact absurd (LineRead.line.inj hread).1 hne
  | last hkind hlines =>
    have hlines : completeLines r = [] := hlines
    have hrest : rest '\n' r.text = [] := (LineRead.line.inj hread).1
    exact ⟨hkind,by simp only [readable,hkind,hlines,hrest,if_pos,List.append_nil]⟩
  | waiting => cases hread
  | failed => cases hread

theorem readline_waiting (h : readline r = .waiting r') :
    r.ending = .silent ∧ completeLines r = [] := by
  have hspec := readFrom_spec r.ending r.chunks r.buffer
  have hread : readFrom r.ending r.buffer r.chunks = .waiting r' := h
  rw [hread] at hspec
  cases hspec with
  | waiting hkind hlines => exact ⟨hkind,hlines⟩

theorem readline_failed (h : readline r = .failed r') :
    r.ending = .broken ∧ completeLines r = [] := by
  have hspec := readFrom_spec r.ending r.chunks r.buffer
  have hread : readFrom r.ending r.buffer r.chunks = .failed r' := h
  rw [hread] at hspec
  cases hspec with
  | failed hkind hlines => exact ⟨hkind,hlines⟩

end

section

variable {F : Type} [McpRuntime F]

variable (F) in
/-- The first line that is taken for the answer to a request, with the lines behind it. -/
def firstAnswer (expectedId : ℤ) :
    List (List Char) → Option (List (String × Value F) × List (List Char))
  | [] => none
  | line :: lines =>
      match parseLine F line expectedId with
      | some payload => some (payload,lines)
      | none => firstAnswer expectedId lines

/-- A response with a result, not a request of the server. -/
def CarriesResult (message : List (String × Value F)) : Prop :=
  (fieldAt message "method").isNone = true ∧ (fieldAt message "result").isSome = true

variable (F) in
/-- A line that answers a request, with a result or with an error. -/
def Answers (id : ℤ) (line : List Char) : Prop :=
  ∃ message, parseLine F line id = some message ∧ (fieldAt message "method").isNone = true ∧
    ((fieldAt message "result").isSome = true ∨ (fieldAt message "error").isSome = true)

variable {transport : Transport} {r r' : Reader} {id : ℤ}

theorem firstAnswer_none {ls : List (List Char)} (h : firstAnswer F id ls = none) :
    ∀ line ∈ ls, parseLine F line id = none := by
  induction ls with
  | nil => exact fun _ hmem => absurd hmem List.not_mem_nil
  | cons l ls ih =>
    rw [firstAnswer] at h
    split at h
    · cases h
    · next hnone =>
      intro line hmem
      rcases List.mem_cons.mp hmem with rfl | hmem
      · exact hnone
      · exact ih h line hmem

/-- What a wait for an answer comes to, by the lines that can be read. -/
inductive Received (F : Type) [McpRuntime F] (transport : Transport) (id : ℤ) (r : Reader) :
    Except (Stop F) (List (String × Value F)) × Reader → Prop
  | answered {message : List (String × Value F)} {r' : Reader} :
      firstAnswer F id (readable transport r) = some (message,readable transport r') →
      hidden transport r' = hidden transport r → r'.ending = r.ending →
      Received F transport id r (.ok message,r')
  | timedOut {r' : Reader} : firstAnswer F id (readable transport r) = none →
      r.ending = .silent → Received F transport id r (.error (.timedOut id),r')
  | stopped {stop : Stop F} {r' : Reader} : firstAnswer F id (readable transport r) = none →
      (∀ k, stop ≠ .timedOut k) → hidden transport r = [] →
      Received F transport id r (.error stop,r')

theorem receive_spec (transport : Transport) (id : ℤ) (r : Reader) :
    Received F transport id r (receive F transport id r) := by
  induction hn : r.size using Nat.strongRecOn generalizing r with
  | ind n ih =>
    rw [receive]
    split
    · next hquiet =>
      obtain ⟨rfl,hselects⟩ := hquiet
      simp only [Reader.selects,Bool.or_eq_false_iff,Bool.not_eq_false',List.isEmpty_iff,
        bne_eq_false_iff_eq] at hselects
      refine .timedOut ?_ hselects.2
      simp [readable,hselects.1,hselects.2,firstAnswer]
    · next hselects =>
      split
      · next r' hread =>
        obtain ⟨hsilent,hlines⟩ := readline_waiting hread
        have hall := completeLines_eq transport hsilent
        rw [hlines] at hall
        obtain ⟨hreadable,hhidden⟩ := List.append_eq_nil_iff.mp hall.symm
        have hnone : firstAnswer F id (readable transport r) = none := by
          rw [hreadable]
          rfl
        split
        · exact .stopped hnone (fun k h => by cases h) hhidden
        · exact .timedOut hnone hsilent
      · next r' hread =>
        obtain ⟨hbroken,hlines⟩ := readline_failed hread
        refine .stopped ?_ (fun k h => by cases h)
          (hidden_of_not_silent (by rw [hbroken]; decide))
        simp [readable,hbroken,hlines,firstAnswer]
      · next line r' hread =>
        split
        · next hempty =>
          subst hempty
          obtain ⟨hclosed,hnil⟩ := readline_empty transport hread
          refine .stopped ?_ (fun k h => by cases h)
            (hidden_of_not_silent (by rw [hclosed]; decide))
          rw [hnil]
          rfl
        · next hne =>
          have hpipe : transport = .stdio → r.selects = true := fun ht => by
            rw [← Bool.not_eq_false]
            exact fun hs => hselects ⟨ht,hs⟩
          obtain ⟨hreadable,hhidden,hending⟩ := readline_line hpipe hread hne
          split
          · next payload hpayload =>
            refine .answered ?_ hhidden hending
            rw [hreadable,firstAnswer,hpayload]
          · next hother =>
            have hfirst : firstAnswer F id (readable transport r) =
                firstAnswer F id (readable transport r') := by
              rw [hreadable,firstAnswer,hother]
            have hrest := ih r'.size (hn ▸ readFrom_size _ _ hread hne) r' rfl
            generalize receive F transport id r' = out at hrest ⊢
            cases hrest with
            | answered hanswer hh he =>
              exact .answered (hfirst.trans hanswer) (hh.trans hhidden) (he.trans hending)
            | timedOut hnone hs => exact .timedOut (hfirst.trans hnone) (hending.symm.trans hs)
            | stopped hnone hstop hh =>
              exact .stopped (hfirst.trans hnone) hstop (hhidden.symm.trans hh)

variable (F) in
/-- The reader with which a call begins to wait for the answer to a request. -/
def waitStart (transport : Transport) (k : ℤ) (r : Reader) : Reader :=
  if k = 1 then r else (receive F transport 1 r).2

variable (F) in
/-- The message that a call takes for the response to its own request. -/
def response (transport : Transport) (r : Reader) : Except (Stop F) (List (String × Value F)) :=
  (receive F transport 2 (receive F transport 1 r).2).1

/-- A call with what it is made with. -/
structure Call (F : Type) where
  transport : Transport
  reachable : Bool
  takes : Value F → Bool
  method : String
  params : List (String × Value F)
  reader : Reader

namespace Call

def outcome (c : Call F) : Except (Stop F) (List (String × Value F)) × Reader :=
  request c.transport c.reachable c.takes c.method c.params c.reader

/-- The call begins its handshake. -/
def Begun (c : Call F) : Prop := c.reachable = true ∧ c.takes initializeMessage = true

/-- The server takes all that the call sends. -/
def Asked (c : Call F) : Prop :=
  c.Begun ∧ c.takes initializedMessage = true ∧ c.takes (requestMessage c.method c.params) = true

/-- A result is returned on a response with a result, and a timeout is reported where no answer to
the awaited request was delivered. -/
structure Faithful (c : Call F) : Prop where
  answered : ∀ result r', c.outcome = (.ok result,r') →
    ∃ message, response F c.transport c.reader = .ok message ∧ CarriesResult message
  patient : ∀ k r', c.outcome = (.error (.timedOut k),r') →
    ∀ line ∈ completeLines (waitStart F c.transport k c.reader), ¬Answers F k line

/-- Among the lines that the client comes to read, the first that bears the identity of the request,
behind the handshake, is a response with a result or ends the call otherwise; and where they hold
no answer to a request, the lines that stay in the text layer hold none. -/
structure Orderly (c : Call F) : Prop where
  response : ∀ m₁ rest m₂ rest₂, c.Asked →
    firstAnswer F 1 (readable c.transport c.reader) = some (m₁,rest) → errorOf m₁ = none →
    firstAnswer F 2 rest = some (m₂,rest₂) → (∃ result, resultOf m₂ = .ok result) →
    CarriesResult m₂
  handshake : c.Begun → firstAnswer F 1 (readable c.transport c.reader) = none →
    ∀ line ∈ hidden c.transport c.reader, ¬Answers F 1 line
  request : ∀ m₁ rest, c.Asked →
    firstAnswer F 1 (readable c.transport c.reader) = some (m₁,rest) → errorOf m₁ = none →
    firstAnswer F 2 rest = none → ∀ line ∈ hidden c.transport c.reader, ¬Answers F 2 line

variable {c : Call F} {m₁ : List (String × Value F)} {r₁ : Reader}

theorem outcome_handshake {stop : Stop F} (hb : c.Begun)
    (h : receive F c.transport 1 c.reader = (.error stop,r₁)) :
    c.outcome = (.error stop,r₁) := by
  simp [outcome,Integrations.request,exchange,hb.1,hb.2,h]

theorem outcome_asked (ha : c.Asked) (h : receive F c.transport 1 c.reader = (.ok m₁,r₁))
    (he : errorOf m₁ = none) : c.outcome =
      ((receive F c.transport 2 r₁).1 >>= resultOf,(receive F c.transport 2 r₁).2) := by
  obtain ⟨hb,hinitialized,hrequest⟩ := ha
  simp only [outcome,Integrations.request,exchange,hb.1,hb.2,h,he,hinitialized,hrequest,if_true,
    reduceCtorEq,if_false,or_self]
  generalize receive F c.transport 2 r₁ = out
  obtain ⟨out,r₂⟩ := out
  cases out with
  | error stop => rfl
  | ok message => rfl

theorem outcome_cases (c : Call F) :
    (∃ stop r', (∀ k, stop ≠ .timedOut k) ∧ c.outcome = (.error stop,r')) ∨
    (c.Begun ∧ ∃ stop r₁, receive F c.transport 1 c.reader = (.error stop,r₁)) ∨
    (c.Asked ∧ ∃ m₁ r₁, receive F c.transport 1 c.reader = (.ok m₁,r₁) ∧ errorOf m₁ = none) := by
  by_cases hb : c.Begun
  · cases h : receive F c.transport 1 c.reader with
    | mk first r₁ =>
      cases first with
      | error stop => exact Or.inr (Or.inl ⟨hb,stop,r₁,rfl⟩)
      | ok m₁ =>
        cases he : errorOf m₁ with
        | some error =>
          refine Or.inl ⟨.serverError error,r₁,by simp,?_⟩
          simp [outcome,Integrations.request,exchange,hb.1,hb.2,h,he]
        | none =>
          by_cases ha : c.Asked
          · exact Or.inr (Or.inr ⟨ha,m₁,r₁,rfl,he⟩)
          · refine Or.inl ⟨.writeFailed,r₁,by simp,?_⟩
            have hsends : c.takes initializedMessage = false ∨
                c.takes (requestMessage c.method c.params) = false := by
              by_contra hnot
              simp only [not_or,Bool.not_eq_false] at hnot
              exact ha ⟨hb,hnot⟩
            simp [outcome,Integrations.request,exchange,hb.1,hb.2,h,he,hsends]
  · refine Or.inl ?_
    cases hreach : c.reachable with
    | false =>
      refine ⟨.unavailable,c.reader,by simp,?_⟩
      simp [outcome,Integrations.request,hreach]
    | true =>
      have hsend : c.takes initializeMessage = false := by
        rw [← Bool.not_eq_true]
        exact fun hs => hb ⟨hreach,hs⟩
      refine ⟨.writeFailed,c.reader,by simp,?_⟩
      simp [outcome,Integrations.request,exchange,hreach,hsend]

theorem waitStart_first (t : Transport) (r : Reader) : waitStart F t 1 r = r := if_pos rfl

theorem waitStart_second {t : Transport} {r : Reader}
    {first : Except (Stop F) (List (String × Value F))} (h : receive F t 1 r = (first,r₁)) :
    waitStart F t 2 r = r₁ := by
  rw [waitStart,if_neg (by decide),h]

/-- Where a wait ends in silence, the lines that hold an answer are those that stay unread. -/
theorem not_answers {t : Transport} {r : Reader} {k : ℤ} (hs : r.ending = .silent)
    (hnone : firstAnswer F k (readable t r) = none)
    (hhidden : ∀ line ∈ hidden t r, ¬Answers F k line) :
    ∀ line ∈ completeLines r, ¬Answers F k line := by
  intro line hline
  rw [completeLines_eq t hs] at hline
  rcases List.mem_append.mp hline with hline | hline
  · rintro ⟨message,hmessage,_⟩
    rw [firstAnswer_none hnone line hline] at hmessage
    cases hmessage
  · exact hhidden line hline

theorem resultOf_ne_timedOut {message : List (String × Value F)} {k : ℤ} :
    resultOf message ≠ .error (.timedOut k) := by
  intro h
  simp only [resultOf] at h
  split at h
  · cases h
  · split at h <;> cases h

theorem faithful_of_orderly (h : c.Orderly) : c.Faithful := by
  have hfirst := receive_spec (F := F) c.transport 1 c.reader
  rcases outcome_cases c with ⟨stop,r',hstop,ho⟩ | ⟨hb,stop,r₁,hr⟩ | ⟨ha,m₁,r₁,hr,he⟩
  · refine ⟨fun result r'' hresult => ?_,fun k r'' hresult => ?_⟩
    · rw [ho] at hresult
      cases hresult
    · rw [ho] at hresult
      exact absurd (Except.error.inj (Prod.mk.inj hresult).1) (hstop k)
  · have ho := outcome_handshake hb hr
    refine ⟨fun result r'' hresult => ?_,fun k r'' hresult => ?_⟩
    · rw [ho] at hresult
      cases hresult
    · rw [ho] at hresult
      obtain rfl := Except.error.inj (Prod.mk.inj hresult).1
      rw [hr] at hfirst
      cases hfirst with
      | timedOut hnone hs =>
        rw [waitStart_first]
        exact not_answers hs hnone (h.handshake hb hnone)
      | stopped _ hstop _ => exact absurd rfl (hstop k)
  · have ho := outcome_asked ha hr he
    have hsecond := receive_spec (F := F) c.transport 2 r₁
    rw [hr] at hfirst
    cases hfirst with
    | answered hanswer hhidden hending =>
      refine ⟨fun result r'' hresult => ?_,fun k r'' hresult => ?_⟩
      · rw [ho] at hresult
        have hresponse : Integrations.response F c.transport c.reader =
            (receive F c.transport 2 r₁).1 := by
          rw [Integrations.response,hr]
        generalize receive F c.transport 2 r₁ = out at hsecond hresult hresponse
        cases hsecond with
        | @answered m₂ r₂ hanswer₂ _ _ =>
          exact ⟨m₂,hresponse,h.response m₁ _ m₂ _ ha hanswer he hanswer₂
            ⟨result,(Prod.mk.inj hresult).1⟩⟩
        | timedOut => cases (Prod.mk.inj hresult).1
        | stopped => cases (Prod.mk.inj hresult).1
      · rw [ho] at hresult
        generalize receive F c.transport 2 r₁ = out at hsecond hresult
        cases hsecond with
        | answered => exact absurd (Prod.mk.inj hresult).1 resultOf_ne_timedOut
        | timedOut hnone hs =>
          obtain rfl : (2 : ℤ) = k := Stop.timedOut.inj (Except.error.inj (Prod.mk.inj hresult).1)
          rw [waitStart_second hr]
          exact not_answers hs hnone (hhidden ▸ h.request m₁ _ ha hanswer he hnone)
        | stopped _ hstop _ => exact absurd (Except.error.inj (Prod.mk.inj hresult).1) (hstop k)

theorem orderly_of_faithful (h : c.Faithful) : c.Orderly := by
  have hfirst := receive_spec (F := F) c.transport 1 c.reader
  have hopened : ∀ {m₁ : List (String × Value F)} {rest : List (List Char)},
      firstAnswer F 1 (readable c.transport c.reader) = some (m₁,rest) →
      ∃ r₁, receive F c.transport 1 c.reader = (.ok m₁,r₁) ∧ readable c.transport r₁ = rest ∧
        hidden c.transport r₁ = hidden c.transport c.reader := by
    intro m₁ rest hanswer
    generalize receive F c.transport 1 c.reader = out at hfirst
    cases hfirst with
    | @answered m r₁ hanswer' hhidden _ =>
      obtain ⟨rfl,rfl⟩ := Prod.mk.inj (Option.some.inj (hanswer'.symm.trans hanswer))
      exact ⟨r₁,rfl,rfl,hhidden⟩
    | timedOut hnone => cases hnone.symm.trans hanswer
    | stopped hnone => cases hnone.symm.trans hanswer
  constructor
  · intro m₁ rest m₂ rest₂ ha hanswer he hanswer₂ hresult
    obtain ⟨result,hresult⟩ := hresult
    obtain ⟨r₁,hr,rfl,_⟩ := hopened hanswer
    have hsecond := receive_spec (F := F) c.transport 2 r₁
    have ho := outcome_asked ha hr he
    have hresponse : Integrations.response F c.transport c.reader =
        (receive F c.transport 2 r₁).1 := by
      rw [Integrations.response,hr]
    generalize receive F c.transport 2 r₁ = out at hsecond ho hresponse
    cases hsecond with
    | @answered m r₂ hanswer' =>
      obtain ⟨rfl,_⟩ := Prod.mk.inj (Option.some.inj (hanswer'.symm.trans hanswer₂))
      have hreturned : c.outcome = (.ok result,r₂) := by
        rw [ho]
        exact congrArg (·,r₂) hresult
      obtain ⟨message,hmessage,hcarries⟩ := h.answered result r₂ hreturned
      obtain rfl := Except.ok.inj (hresponse.symm.trans hmessage)
      exact hcarries
    | timedOut hnone => cases hnone.symm.trans hanswer₂
    | stopped hnone => cases hnone.symm.trans hanswer₂
  · intro hb hnone line hline
    generalize hr : receive F c.transport 1 c.reader = out at hfirst
    cases hfirst with
    | answered hanswer => cases hanswer.symm.trans hnone
    | @timedOut r₁ _ _ =>
      have hpatient := h.patient 1 r₁ (outcome_handshake hb hr)
      rw [waitStart_first] at hpatient
      exact hpatient line (mem_completeLines hline)
    | stopped _ _ hhidden =>
      rw [hhidden] at hline
      cases hline
  · intro m₁ rest ha hanswer he hnone line hline
    obtain ⟨r₁,hr,rfl,hhidden⟩ := hopened hanswer
    have hsecond := receive_spec (F := F) c.transport 2 r₁
    have ho := outcome_asked ha hr he
    rw [← hhidden] at hline
    generalize receive F c.transport 2 r₁ = out at hsecond ho
    cases hsecond with
    | answered hanswer₂ => cases hanswer₂.symm.trans hnone
    | @timedOut r₂ _ _ =>
      have hpatient := h.patient 2 r₂ ho
      rw [waitStart_second hr] at hpatient
      exact hpatient line (mem_completeLines hline)
    | stopped _ _ hnil =>
      rw [hnil] at hline
      cases hline

/-- A call is faithful exactly if the lines that come in for it are orderly. -/
theorem faithful_iff (c : Call F) : c.Faithful ↔ c.Orderly :=
  ⟨orderly_of_faithful,faithful_of_orderly⟩

end Call

end

/-- A server that answers the handshake and then asks something itself, under the identity of the
call's request: the call returns an empty result, and nothing was answered. -/
theorem request_taken_for_answer : letI := plainMcp; ¬∀ c : Call Unit, c.Faithful := by
  let := plainMcp
  intro h
  let c : Call Unit := {
    transport := .socket
    reachable := true
    takes := fun _ => true
    method := "tools/call"
    params := []
    reader := {chunks := ["\x7b\"id\":1,\"result\":\x7b\x7d\x7d\n".toList,
      "\x7b\"id\":2,\"method\":\"ping\"\x7d\n".toList]}}
  have hlines : ((firstAnswer Unit 1 (readable c.transport c.reader)).map fun p =>
      ((errorOf p.1).isNone,(firstAnswer Unit 2 p.2).map fun q =>
        ((resultOf q.1).isOk,(fieldAt q.1 "result").isSome))) =
      some (true,some (true,false)) := by decide +kernel
  obtain ⟨⟨m₁,rest⟩,hfirst,hrest⟩ := Option.map_eq_some_iff.mp hlines
  obtain ⟨herror,hrest⟩ := Prod.mk.inj hrest
  obtain ⟨⟨m₂,rest₂⟩,hsecond,hrest⟩ := Option.map_eq_some_iff.mp hrest
  obtain ⟨hok,hresult⟩ := Prod.mk.inj hrest
  have hreturned : ∃ result, resultOf m₂ = .ok result := by
    cases hm : resultOf m₂ with
    | error _ =>
      rw [hm] at hok
      cases hok
    | ok result => exact ⟨result,rfl⟩
  have hcarries := (Call.orderly_of_faithful (h c)).response m₁ rest m₂ rest₂
    ⟨⟨rfl,rfl⟩,rfl,rfl⟩ hfirst (Option.isNone_iff_eq_none.mp herror) hsecond hreturned
  exact Bool.false_ne_true (hresult.symm.trans hcarries.2)

end Integrations
end Atlas
