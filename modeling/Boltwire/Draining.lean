import Boltwire.Batches
import Boltwire.PackStreamRoundTrip

namespace Boltwire
open Future Incremental Server
namespace BoltConnection
variable {S : Server} {more : ℕ}

def AllReady (sched : List Choice) : Prop := ∀ choice ∈ sched, ∃ n, choice = .ready n

theorem AllReady.eq_cons {sched : List Choice} (h : AllReady sched) (hpos : 0 < sched.length) :
    ∃ n rest, sched = .ready n :: rest ∧ AllReady rest := by
  cases sched with
  | nil => exact absurd hpos (Nat.lt_irrefl 0)
  | cons choice rest =>
    obtain ⟨n, rfl⟩ := h choice (List.mem_cons_self ..)
    exact ⟨n, rest, rfl, fun c hc => h c (List.mem_cons_of_mem _ hc)⟩

/-- Every await completes, and `more` of them are left when all the bytes on
their way have been read. -/
structure Prompt (more : ℕ) (c : BoltConnection) : Prop where
  ready : AllReady c.stream.sched
  enough : c.stream.inbound.length + more ≤ c.stream.sched.length

def OverLimit (c : BoltConnection) : Prop :=
  ∃ (f : Frame) (rest : List UInt8), c.unread = f.core ++ rest ∧ MAX_MESSAGE < f.body.length

/-- The error for a message over the limit, which stays in front of the stream. -/
def TooLong (e : Option BoltError) (c : BoltConnection) : Prop :=
  e = some (.protocol .messageTooLong) ∧ OverLimit c

theorem Prompt.mono {less : ℕ} {c : BoltConnection} (h : Prompt more c) (hle : less ≤ more) :
    Prompt less c := by
  have henough := h.enough
  exact ⟨h.ready, by omega⟩

def Whole (bytes : List UInt8) : Prop :=
  ∃ (f : Frame) (rest : List UInt8), dropNoops bytes = f.core ++ rest

theorem Whole.not_more {bytes rest : List UInt8} (h : Whole bytes) :
    Boltwire.takeMessage bytes ≠ .more rest := by
  obtain ⟨f, rest', h⟩ := h
  rw [Boltwire.takeMessage, Frame.cutMessage_of_dropNoops h, f.cutMessage_bytes]
  split_ifs <;> simp

/-- A message that is refused is over the limit. -/
theorem Whole.of_fail {bytes rest : List UInt8} {e : BoltError} (h : Whole bytes)
    (ht : Boltwire.takeMessage bytes = .fail e rest) :
    ∃ (f : Frame) (rest' : List UInt8), rest = f.core ++ rest' ∧
      MAX_MESSAGE < f.body.length := by
  obtain ⟨f, rest', h⟩ := h
  rw [Boltwire.takeMessage, Frame.cutMessage_of_dropNoops h, f.cutMessage_bytes] at ht
  split_ifs at ht with hx
  cases ht
  exact ⟨f, rest', rfl, by simpa [exceeds] using hx⟩

/-- A message that is not all in the buffer has bytes on their way. -/
theorem prompt_fill {c : BoltConnection} {rest : List UInt8} (hp : Prompt more c)
    (hw : Whole c.unread) (ht : Boltwire.takeMessage c.rbuf = .more rest) :
    wp fill (post (fun _ c' => c'.stream.sched.length < c.stream.sched.length ∧ Prompt more c' ∧
      Whole c'.unread) TooLong) { c with rbuf := rest } := by
  -- with nothing on its way the message would be cut off for good
  have hne : c.stream.inbound ≠ [] := by
    intro hin
    rw [unread, hin, List.append_nil] at hw
    exact hw.not_more ht
  have hpos := List.length_pos_of_ne_nil hne
  have henough := hp.enough
  obtain ⟨n, sched, hs, hready⟩ := hp.ready.eq_cons (by omega)
  rw [hs, List.length_cons] at henough
  unfold Future.wp fill
  simp only [hs, hne, if_false]
  refine ⟨by simp, ⟨hready, ?_⟩, ?_⟩
  · simp only [List.length_drop]
    omega
  · obtain ⟨f, rest', hw⟩ := hw
    refine ⟨f, rest', ?_⟩
    rw [unread, List.append_assoc, List.take_append_drop, cutMessage_more ht, ← dropNoops_append]
    exact hw

theorem prompt_readRound {n : ℕ} {c : BoltConnection} (hp : Prompt more c) (hw : Whole c.unread)
    (hn : c.stream.sched.length = n) : wp (readRound ())
      (post (Sum.elim (fun _ c' => ∃ m < n, c'.stream.sched.length = m ∧ Prompt more c' ∧
        Whole c'.unread) fun _ => Prompt more) TooLong) c := by
  rw [readRound, Future.wp_bind]
  unfold Future.wp takeMessage
  cases ht : Boltwire.takeMessage c.rbuf with
  | more rest =>
    apply post_bind (prompt_fill hp hw ht)
    rintro _ c' ⟨hlt, hp', hw'⟩
    exact ⟨_, hn ▸ hlt, rfl, hp', hw'⟩
  | item body rest => exact ⟨hp.ready, hp.enough⟩
  | fail e rest =>
    obtain ⟨-, rfl, -⟩ := cutMessage_fail ht
    have hfail := hw.of_fail (cutMessage_fail_append ht c.stream.inbound)
    exact ⟨rfl, hfail⟩

theorem prompt_readBody {c : BoltConnection} (hp : Prompt more c) (hw : Whole c.unread) :
    wp readBody (post (fun _ => Prompt more) TooLong) c :=
  post_loop_within (fun n _ c' => c'.stream.sched.length = n ∧ Prompt more c' ∧ Whole c'.unread)
    (fun _ _ _ h => prompt_readRound h.2.1 h.2.2 h.1) (Nat.le_refl _) ⟨rfl, hp, hw⟩

theorem prompt_readMessage {c : BoltConnection} {r : Response} {rs : List Response}
    (hl : Live S c (r :: rs)) (hp : Prompt more c) :
    wp readMessage (post (fun _ => Prompt more) TooLong) c := by
  rw [readMessage, Future.wp_bind]
  apply wp_checkIntact
  · intro hb
    cases hb.symm.trans hl.intact
  intro _
  rw [Future.andThen, Future.wp_bind]
  have hread : wp readBody (fun o c' => post (fun _ => Prompt more) TooLong o c' ∧
      ReadBody c o c') c := ⟨prompt_readBody hp hl.carries.exists_frame, wp_readBody c⟩
  refine wp_mono hread ?_
  rintro o c₁ ⟨hprompt, hbody⟩
  cases hbody with
  | @message _ body hcut =>
    obtain ⟨r', _, -, hd, -⟩ := hl.carries.takeMessage hcut
    rw [Future.andThen, Future.wp, acceptBody_ok hd]
    exact ⟨hprompt.ready, hprompt.enough⟩
  | stopped ho =>
    rcases ho with rfl | rfl
    · exact hprompt
    · exact hprompt
  | lost => exact hprompt

/-- The reply that is read, and the schedule it leaves. -/
theorem prompt_receive {c : BoltConnection} {r : Response} {rs : List Response}
    (hl : Live S c (r :: rs)) (hp : Prompt more c) : wp readMessage
      (post (fun r' c' => r' = r ∧ Live S c' rs ∧ Prompt more c') TooLong) c := by
  apply post_mono (post_and (post_receive (.inr hl)) (prompt_readMessage hl hp))
  · rintro r' c' ⟨⟨hr, hg, -⟩, hp'⟩
    exact ⟨hr, hg.live, hp'⟩
  · rintro e c' ⟨-, he⟩
    exact he

theorem encodeAll_of_packed {req : Request} {b : Body} (h : Packed req b) :
    ∃ out, encodeAll [req] [] = .ok out := by
  have hp : PackStream.pack req.value [] = .ok b := h
  rw [encodeAll, encode, hp]
  exact ⟨_, rfl⟩

/-- A write takes two awaits. -/
theorem wp_writeBytes_ready {peer : Peer} {c : BoltConnection} {i j : ℕ} {sched : List Choice}
    {bytes : List UInt8} {Q : Outcome BoltError Unit → BoltConnection → Prop}
    (hs : c.stream.sched = .ready i :: .ready j :: sched)
    (hQ : Q (.ok ()) { c with
      stream := { c.stream.deliver peer bytes with sched }, broken := false }) :
    wp (writeBytes peer bytes) Q c := by
  have hw : writeBytes peer bytes c = (.ok (), { c with
      stream := { c.stream.deliver peer bytes with sched }, broken := false }) := by
    simp [writeBytes, setBroken, writeAll, flush, hs, bind, Future.modify, Stream.deliver]
  rwa [Future.wp, hw]

/-- A request goes out whole, and its reply is on its way. -/
theorem prompt_send {c : BoltConnection} {rs : List Response} {req : Request} {b : Body}
    (hl : Live S c rs) (hb : Packed req b)
    (hp : Prompt (2 + (S.peer c.log b).length + more) c) :
    wp (writeMessage S.peer req) (post (fun _ => Prompt more) fun _ _ => False) c := by
  have henough := hp.enough
  -- one await for `write_all`, one for `flush`
  obtain ⟨i, sched₁, hs, hready₁⟩ := hp.ready.eq_cons (by omega)
  rw [hs, List.length_cons] at henough
  obtain ⟨j, sched, rfl, hready⟩ := hready₁.eq_cons (by omega)
  rw [List.length_cons] at henough
  obtain ⟨out, hout⟩ := encodeAll_of_packed hb
  obtain ⟨fs, hfs, hbytes, -⟩ := encodeAll_eq_ok hout
  have hbody : fs.map Frame.body = [b] := by
    obtain ⟨b', hb', hmap⟩ := packed_one (packed_map hfs)
    rw [hmap, Except.ok.inj (hb'.symm.trans hb)]
  rw [List.nil_append] at hbytes
  subst hbytes
  rw [writeMessage, writeMessages, Future.wp_bind]
  apply wp_checkIntact
  · intro hbroken
    cases hbroken.symm.trans hl.intact
  intro _
  rw [Future.andThen, Future.wp_bind, hout, Future.ofExcept, Future.wp_pure, Future.andThen,
    Future.wp_bind, offer, Future.wp_modify, Future.andThen, Future.wp_bind]
  apply wp_writeBytes_ready
  · exact hs
  have hin := congrArg List.length (hl.deliver_inbound fs)
  rw [hbody, Peer.replies, Peer.replies, List.append_nil, List.length_append] at hin
  refine ⟨hready, ?_⟩
  change (c.stream.deliver S.peer (fs.flatMap Frame.bytes)).inbound.length + more ≤ sched.length
  omega

end BoltConnection

namespace RecordStream
open BoltConnection
variable {S : Server} {more : ℕ} {log : List Body} {rows got left : List (List BoltValue)}

/-- `n` rows of a batch and a SUCCESS are still to be read. -/
def Remaining (S : Server) (more : ℕ) (m : Meta) (n : ℕ) (s : RecordStream) : Prop :=
  ∃ unread : List (List BoltValue), unread.length = n ∧
    Live S s.conn (unread.map .record ++ [.success m]) ∧ Prompt more s.conn

theorem prompt_fetchRound {m : Meta} {n : ℕ} {s : RecordStream} (h : Remaining S more m n s) :
    wp (fetchRound S.peer ()) (post (Sum.elim (fun _ s' => ∃ k < n, Remaining S more m k s')
      fun _ s' => Prompt more s'.conn) fun e s => TooLong e s.conn) s := by
  obtain ⟨unread, rfl, hl, hp⟩ := h
  cases unread with
  | cons row unread =>
    apply post_call (prompt_receive hl hp)
    rintro _ c' ⟨rfl, hl', hp'⟩
    exact ⟨unread.length, by simp, unread, rfl, hl', hp'⟩
  | nil =>
    apply post_call (prompt_receive hl hp)
    rintro _ c' ⟨rfl, -, hp'⟩
    cases hm : hasMoreOf m with
    | true =>
      simp only [Future.wp_bind, Future.wp_modify, Future.andThen, hm, Bool.not_true,
        Bool.false_eq_true, if_false, Future.wp_pure]
      exact hp'
    | false =>
      simp only [Future.wp_bind, Future.wp_modify, Future.andThen, hm, Bool.not_false, if_true,
        onConn, Future.wp_zoom, setNeedsReset, Future.wp_pure]
      exact ⟨hp'.ready, hp'.enough⟩

theorem prompt_fetchLoop {m : Meta} {n : ℕ} {s : RecordStream} (h : Remaining S more m n s) :
    wp (Future.loop (fun s => s.conn.budget) (fetchRound S.peer) ())
      (post (fun _ s' => Prompt more s'.conn) fun e s => TooLong e s.conn) s := by
  have hle : n ≤ s.conn.budget := by
    obtain ⟨unread, rfl, hl, -⟩ := h
    have hlen := hl.carries.length_le
    rw [List.length_append, List.length_map, BoltConnection.unread, List.length_append] at hlen
    rw [budget]
    omega
  exact post_loop_within (fun k _ => Remaining S more m k) (fun _ _ _ => prompt_fetchRound) hle h

/-- The batch on its way is fetched to its end. -/
theorem prompt_fetchBatch_inFlight {s : RecordStream} {before : List Body} {b : Body}
    {unread : List (List BoltValue)} {m : Meta} (hp : s.pullInFlight = true)
    (h : InFlight S s before b unread) (hm : (S.answer before b).summary = .success m)
    (hb : s.conn.broken = false) (hprompt : Prompt more s.conn) : wp (fetchBatch S.peer)
      (post (fun _ s' => Prompt more s'.conn) fun e s => TooLong e s.conn) s := by
  have hl := h.sound.live hb
  rw [hm] at hl
  rw [fetchBatch, Future.wp_bind, Future.wp_get, Future.andThen, hp]
  exact prompt_fetchLoop ⟨unread, rfl, hl, hprompt⟩

/-- The next batch is asked for and fetched to its end. -/
theorem prompt_fetchBatch_waiting {s : RecordStream} {b : Body} {m : Meta}
    (hp : s.pullInFlight = false) (hl : Live S s.conn [])
    (hb : Packed (Request.pull s.batch s.qid) b)
    (hm : (S.answer s.conn.log b).summary = .success m)
    (hprompt : Prompt (2 + (S.peer s.conn.log b).length + more) s.conn) : wp (fetchBatch S.peer)
      (post (fun _ s' => Prompt more s'.conn) fun e s => TooLong e s.conn) s := by
  have hplain : ∀ req ∈ [Request.pull s.batch s.qid], Plain req := by
    simpa using plain_pull s.batch s.qid
  rw [fetchBatch, Future.wp_bind, Future.wp_get, Future.andThen, hp]
  apply post_call (post_mono (post_and (post_send (.inr hl) hplain) (prompt_send hl hb hprompt))
    (fun _ _ h => h) fun _ _ h => h.2.elim)
  rintro _ c₁ ⟨⟨bodies, hsent⟩, hp₁⟩
  obtain ⟨b', hb', rfl⟩ := packed_one hsent.packed
  cases Except.ok.inj (hb'.symm.trans hb)
  have hlive := hsent.live
  rw [List.nil_append, replies_singleton, Answer.responses, hm] at hlive
  rw [Future.wp_bind, Future.wp_modify, Future.andThen]
  exact prompt_fetchLoop ⟨_, rfl, hlive, hp₁⟩

/-- What `n` more PULLs of `b` after `log` take: two awaits for the write, and no
more for the reply than it has bytes. -/
def cost (peer : Peer) (b : Body) : ℕ → List Body → ℕ
  | 0, _ => 0
  | n + 1, log => 2 + (peer log b).length + cost peer b n (log ++ [b])

theorem cost_mono (peer : Peer) (b : Body) {n n' : ℕ} (h : n ≤ n') (log : List Body) :
    cost peer b n log ≤ cost peer b n' log := by
  induction n generalizing n' log with
  | zero => exact Nat.zero_le _
  | succ n ih =>
    obtain ⟨k, rfl⟩ : ∃ k, n' = k + 1 := ⟨n' - 1, by omega⟩
    have hrest := ih (Nat.le_of_succ_le_succ h) (log ++ [b])
    rw [cost, cost]
    omega

/-- Enough of the schedule is left for the rest of the result. -/
structure Paced (S : Server) (log : List Body) (rows got left : List (List BoltValue)) (b : Body)
    (s : RecordStream) : Prop where
  progress : Progress S log rows got left s
  intact : s.conn.broken = false
  pull : Packed (Request.pull s.batch s.qid) b
  prompt : Prompt (1 + cost S.peer b left.length s.conn.log) s.conn

def roundsLeft (s : RecordStream) : ℕ :=
  if s.buffer ≠ [] ∨ s.hasMore = false then 0 else if s.pullInFlight then 2 else 1

theorem roundsLeft_le {s : RecordStream} (hp : s.pullInFlight = false) : roundsLeft s ≤ 1 := by
  unfold roundsLeft
  split_ifs <;> simp_all

theorem Paced.fetched_inFlight {pulls : List Body} {asked unread : List (List BoltValue)}
    {b b₀ : Body} {m : Meta} {s s' : RecordStream}
    (h : Paced S log rows got (restOf s.batch asked) b s)
    (ha : Arriving S log rows got pulls asked unread b₀ s)
    (hf : Fetched S s (log ++ pulls) b₀ unread m s')
    (hp : Prompt (1 + cost S.peer b (restOf s.batch asked).length s.conn.log) s'.conn) :
    Paced S log rows got (restOf s.batch asked) b s' := by
  have hlog : s'.conn.log = s.conn.log := hf.log.trans ha.inFlight.log.symm
  have hpull := h.pull
  have hprogress := ha.fetched hf
  obtain ⟨st, c'⟩ := s'
  obtain rfl := hf.fields
  exact ⟨hprogress, hf.live.intact, hpull, by rwa [hlog]⟩

theorem Paced.fetched_waiting {pulls : List Body} {b : Body} {m : Meta} {k : ℕ}
    {s s₁ s' : RecordStream} (h : Paced S log rows got left b s)
    (hw : Waiting S log rows got pulls left s) (hp : Pulled S s b s₁)
    (hf : Fetched S s₁ s.conn.log b (S.answer s.conn.log b).records m s')
    (hk : left.length = k + 1)
    (hprompt : Prompt (1 + cost S.peer b k (s.conn.log ++ [b])) s'.conn) :
    s'.buffer ≠ [] ∧ Paced S log rows got (restOf s.batch left) b s' := by
  have hlog := hw.log_eq h.intact
  have hpull : PullOf s.qid s.batch b := ⟨hw.valid, s.qid, .inr rfl, h.pull⟩
  obtain ⟨hrecords, -⟩ := hw.serving pulls left s.batch b hw.pulled (.inr hw.nonempty) hpull
  rw [← hlog] at hrecords
  have hprogress := (hw.sent hp).fetched (hlog ▸ hf)
  have hpacked := h.pull
  have hle := length_restOf_lt hw.valid hw.nonempty
  have hcost : cost S.peer b (restOf s.batch left).length (s.conn.log ++ [b]) ≤
      cost S.peer b k (s.conn.log ++ [b]) := cost_mono S.peer b (by omega) _
  have hlog' := hf.log
  have hnonempty := batchOf_ne_nil hw.valid hw.nonempty
  obtain ⟨st, c'⟩ := s'
  obtain rfl := hf.fields
  obtain ⟨st₁, c₁⟩ := s₁
  obtain rfl := hp.fields
  refine ⟨?_, hprogress, hf.live.intact, hpacked, ?_⟩
  · rw [hrecords]
    simp [hnonempty]
  · rw [hlog']
    exact hprompt.mono (by omega)

theorem paced_fetchBatch {b : Body} {s : RecordStream} (h : Paced S log rows got left b s)
    (hm : s.hasMore = true) (hbuf : s.buffer = []) :
    wp (fetchBatch S.peer)
      (post (fun _ s' => roundsLeft s' < roundsLeft s ∧
        ∃ left', Paced S log rows got left' b s')
        fun e s => TooLong e s.conn) s := by
  cases h.progress with
  -- a batch in flight costs no write, and may have no rows left
  | @arriving pulls asked unread b₀ ha hleft =>
    subst hleft
    obtain ⟨-, m, hsum, -⟩ := ha.serving pulls asked s.batch b₀ ha.pulled ha.nonempty ha.pull
    have hrounds : roundsLeft s = 2 := by simp [roundsLeft, hbuf, hm, ha.pullInFlight]
    apply post_mono (post_and (post_fetchBatch_inFlight ha.pullInFlight ha.inFlight)
      (prompt_fetchBatch_inFlight ha.pullInFlight ha.inFlight hsum h.intact h.prompt))
    · rintro _ s' ⟨⟨m', hf⟩, hp⟩
      have hflight : s'.pullInFlight = false := congrArg StreamState.pullInFlight hf.fields
      have hle := roundsLeft_le hflight
      exact ⟨by omega, _, h.fetched_inFlight ha hf hp⟩
    · rintro e s' ⟨-, he⟩
      exact he
  -- a new PULL is paid for out of what `cost` set aside
  | @waiting pulls hw =>
    have hlog := hw.log_eq h.intact
    have hpull : PullOf s.qid s.batch b := ⟨hw.valid, s.qid, .inr rfl, h.pull⟩
    obtain ⟨hrecords, m, hsum, -⟩ := hw.serving pulls left s.batch b hw.pulled
      (.inr hw.nonempty) hpull
    rw [← hlog] at hrecords hsum
    obtain ⟨k, hk⟩ : ∃ k, left.length = k + 1 :=
      Nat.exists_eq_add_one_of_ne_zero (List.length_pos_of_ne_nil hw.nonempty).ne'
    have hprompt := h.prompt
    rw [hk, cost, show ∀ x y : ℕ, 1 + (x + y) = x + (1 + y) by omega] at hprompt
    have hrounds : roundsLeft s = 1 := by simp [roundsLeft, hbuf, hm, hw.pullInFlight]
    apply post_mono (post_and (post_fetchBatch_waiting hw.pullInFlight hw.sound)
      (prompt_fetchBatch_waiting hw.pullInFlight (hw.sound.live h.intact) h.pull hsum hprompt))
    · rintro _ s' ⟨⟨b', s₁, m', hp, hf⟩, hprompt'⟩
      cases Except.ok.inj (hp.packed.symm.trans h.pull)
      obtain ⟨hnonempty, hpaced⟩ := h.fetched_waiting hw hp hf hk hprompt'
      have hrounds' : roundsLeft s' = 0 := by simp [roundsLeft, hnonempty]
      exact ⟨by omega, _, hpaced⟩
    · rintro e s' ⟨-, he⟩
      exact he
  | drained hm' => cases hm'.symm.trans hm

def PacedRow (S : Server) (log : List Body) (rows got : List (List BoltValue)) (b : Body)
    (row : Option (List BoltValue)) (s : RecordStream) : Prop :=
  (∃ left, Paced S log rows (got ++ row.toList) left b s) ∧ (row = none → got = rows)

theorem paced_nextRound {b : Body} {n : ℕ} {s : RecordStream} (h : Paced S log rows got left b s)
    (hn : roundsLeft s ≤ n) :
    wp (nextRound S.peer ())
      (post (Sum.elim
        (fun _ s' => ∃ k < n, roundsLeft s' ≤ k ∧ ∃ left', Paced S log rows got left' b s')
        (PacedRow S log rows got b)) fun e s => TooLong e s.conn) s := by
  rw [nextRound, Future.wp_bind, Future.wp_get, Future.andThen]
  cases hbuf : s.buffer with
  | cons row buffer =>
    have hprogress := h.progress.pop hbuf
    exact ⟨⟨left, hprogress, h.intact, h.pull, h.prompt⟩, by simp⟩
  | nil =>
    split_ifs with ho
    · have hm := h.progress.hasMore (by simpa using ho)
      have hprogress := h.progress.setDone hm
      refine ⟨⟨left, ?_, h.intact, h.pull, h.prompt⟩, fun _ => h.progress.eq_rows hm hbuf⟩
      rwa [Option.toList_none, List.append_nil]
    · have hm : s.hasMore = true := by simp_all
      apply post_bind (paced_fetchBatch h hm hbuf)
      rintro _ s' ⟨hlt, hpaced⟩
      exact ⟨roundsLeft s', by omega, Nat.le_refl _, hpaced⟩

theorem paced_next {b : Body} {s : RecordStream} (h : Paced S log rows got left b s) :
    wp (next S.peer) (post (PacedRow S log rows got b) fun e s => TooLong e s.conn) s := by
  have hle : roundsLeft s ≤ s.conn.stream.sched.length + 1 := by
    have henough := h.prompt.enough
    unfold roundsLeft
    split_ifs <;> omega
  apply post_loop_within (fun n _ s' => roundsLeft s' ≤ n ∧
    ∃ left', Paced S log rows got left' b s')
    ?_ hle ⟨Nat.le_refl _, left, h⟩
  rintro n _ s' ⟨hn, left', h'⟩
  exact paced_nextRound h' hn

/-- `while let Some(row) = stream.next().await?`, with the rows collected. -/
def drainRound (peer : Peer) (rows : List (List BoltValue)) :
    Op (List (List BoltValue) ⊕ List (List BoltValue)) := do
  match ← next peer with
  | some row => return .inl (rows ++ [row])
  | none => return .inr rows

def drain (peer : Peer) (rounds : ℕ) : Op (List (List BoltValue)) :=
  Future.loopN (drainRound peer) rounds []

theorem paced_drain {b : Body} {s : RecordStream} (h : Paced S log rows got left b s) {rounds : ℕ}
    (hr : rows.length < rounds) : wp (drain S.peer rounds)
      (post (fun rest _ => got ++ rest = rows) fun e s => TooLong e s.conn) s := by
  apply post_loopN (fun n acc s' => rows.length ≤ (got ++ acc).length + n ∧
    ∃ left', Paced S log rows (got ++ acc) left' b s')
  · rintro n acc s' ⟨hn, left', h'⟩
    apply post_bind (paced_next h')
    rintro row s₁ ⟨⟨left₁, h₁⟩, hnone⟩
    cases row with
    | none => exact hnone rfl
    | some row =>
      have hprefix := h₁.progress.isPrefix.length_le
      rw [Option.toList_some, List.length_append, List.length_singleton] at hprefix
      rw [Option.toList_some, List.append_assoc] at h₁
      refine ⟨n - 1, by omega, ?_, left₁, h₁⟩
      rw [← List.append_assoc, List.length_append, List.length_singleton]
      omega
  · exact hr
  · refine ⟨Nat.le_add_left _ _, left, ?_⟩
    rwa [List.append_nil]

theorem pull_sized (n : Int64) (qid : Option Int64) :
    (Request.pull n qid).value.KeysDistinct ∧ (Request.pull n qid).value.Sized := by
  have hn : (utf8 "n").length < 4294967296 := by decide
  have hq : (utf8 "qid").length < 4294967296 := by decide
  cases qid <;> simp [Request.pull, Request.withN, Request.withMeta, Request.value, Meta.insert,
    BoltValue.KeysDistinct, BoltValue.Sized, BoltValue.Forall, BoltValue.ForallSeq,
    BoltValue.ForallEntries, BoltValue.NodeKeysDistinct, BoltValue.NodeSized, hn, hq]

/-- A PULL can always be packed. -/
theorem exists_packed_pull (n : Int64) (qid : Option Int64) :
    ∃ b, Packed (Request.pull n qid) b := by
  obtain ⟨hkeys, hsized⟩ := pull_sized n qid
  obtain ⟨b, hb⟩ := PackStream.roundTrips _ hkeys hsized
  exact ⟨b, hb.pack_eq []⟩

end RecordStream
end Boltwire
