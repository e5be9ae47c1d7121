import Bluefrog.Udp.Handler

/-!
The connection-id gate of the UDP handler over whole runs. The id that a connect hands out lets its
source, and no other, announce and scrape for the rest of its window and the whole of the next one;
everything else is answered with silence or with a reply no longer than the datagram.
-/

open Rust

namespace Bluefrog

open Udp

/-- A datagram as the runtime hands it to the handler. -/
structure Datagram where
  buf : List UInt8
  srcIp : Bytes 16
  isV4 : Bool
  nowSecs : UInt64
  interval : UInt32

namespace Handler

variable (blake3 : Blake3) (order : HashOrder)

/-- One turn of a worker, on its handler and its reply buffer. -/
def serve (st : Handler × List UInt8) (d : Datagram) : Option (Action × Handler × List UInt8) :=
  st.1.handle blake3 order d.buf d.srcIp d.isV4 d.nowSecs d.interval st.2

/-- The handler and the reply buffer after a sequence of datagrams. -/
def run (st : Handler × List UInt8) : List Datagram → Option (Handler × List UInt8)
  | [] => some st
  | d :: ds => do
      let (_, st) ← serve blake3 order st d
      run st ds

end Handler

/-- The connection id a datagram presents. -/
def presentedId (buf : List UInt8) : Option UInt64 :=
  match parse buf with
  | some (.ok (.announce a)) => some a.connectionId
  | some (.ok (.scrape s)) => some s.connectionId
  | _ => none

/-- The connection id in the reply to a connect. -/
def issuedId (reply : List UInt8) : UInt64 := UInt64.ofNat (beNat ((reply.drop 8).take 8))

theorem issuedId_connect (transactionId : UInt32) (id : UInt64) :
    issuedId (toBe32 0 ++ toBe32 transactionId ++ toBe64 id) = id := by
  have hdrop : (toBe32 0 ++ toBe32 transactionId ++ toBe64 id).drop 8 = toBe64 id := List.drop_left' rfl
  rw [issuedId, hdrop, List.take_of_length_le (Nat.le_of_eq (length_toBe64 id)), ofNat_beNat_toBe64]

namespace Handler

/-- What one turn does about the connection id. -/
structure Gated (blake3 : Blake3) (st : Handler × List UInt8) (d : Datagram) (action : Action)
    (st' : Handler × List UInt8) : Prop where
  connid : st'.1.connid = st.1.connid
  /-- A datagram that does not parse is dropped, and changes nothing. -/
  dropped : (∃ e, parse d.buf = some (.error e)) → action = .drop ∧ st' = st
  /-- An id that is not accepted is a mismatch, and changes nothing. -/
  mismatched : ∀ id, presentedId d.buf = some id →
    st.1.connid.validate blake3 id d.srcIp.toList d.nowSecs = false → action = .connidMismatch ∧ st' = st
  /-- An id that is accepted is answered. -/
  answered : ∀ id, presentedId d.buf = some id →
    st.1.connid.validate blake3 id d.srcIp.toList d.nowSecs = true → ∃ n, action = .reply n
  /-- A reply is the whole buffer, and is longer than its datagram only for an accepted id. -/
  amplified : ∀ n, action = .reply n → st'.2.length = n ∧
    (d.buf.length < n → ∃ id, presentedId d.buf = some id ∧
      st.1.connid.validate blake3 id d.srcIp.toList d.nowSecs = true)

variable (blake3 : Blake3) (order : HashOrder)

/-- A turn whose id is accepted answers, whatever the reply is. -/
theorem gated_reply {st st' : Handler × List UInt8} {d : Datagram} {n : Nat} {id : UInt64}
    (hconnid : st'.1.connid = st.1.connid) (hlen : st'.2.length = n) (hparse : ¬∃ e, parse d.buf = some (.error e))
    (hpresented : presentedId d.buf = some id)
    (hid : st.1.connid.validate blake3 id d.srcIp.toList d.nowSecs = true) :
    Gated blake3 st d (.reply n) st' where
  connid := hconnid
  dropped := fun h => absurd h hparse
  mismatched := by
    intro id' hid' hinvalid
    rw [hpresented] at hid'
    cases hid'
    rw [hid] at hinvalid
    cases hinvalid
  answered := fun _ _ _ => ⟨n, rfl⟩
  amplified := by
    intro n' hn
    cases hn
    exact ⟨hlen, fun _ => ⟨id, hpresented, hid⟩⟩

theorem gated_mismatch {st : Handler × List UInt8} {d : Datagram} {id : UInt64}
    (hparse : ¬∃ e, parse d.buf = some (.error e)) (hpresented : presentedId d.buf = some id)
    (hid : st.1.connid.validate blake3 id d.srcIp.toList d.nowSecs = false) :
    Gated blake3 st d .connidMismatch st where
  connid := rfl
  dropped := fun h => absurd h hparse
  mismatched := fun _ _ _ => ⟨rfl, rfl⟩
  answered := by
    intro id' hid' hvalid
    rw [hpresented] at hid'
    cases hid'
    rw [hid] at hvalid
    cases hvalid
  amplified := by
    intro n' hn
    cases hn

/-- Every turn ends, and is gated. -/
theorem serve_gated (st : Handler × List UInt8) (d : Datagram) :
    ∃ action st', serve blake3 order st d = some (action, st') ∧ Gated blake3 st d action st' := by
  rcases parse_cases d.buf with ⟨e, hparse⟩ | ⟨transactionId, hparse⟩ | ⟨a, hparse⟩ | ⟨s, hashes, hparse, hhashes⟩
  · have hpresented : presentedId d.buf = none := by rw [presentedId, hparse]
    refine ⟨_, _, handle_error blake3 order st.1 _ _ _ _ _ hparse, rfl, fun _ => ⟨rfl, rfl⟩, ?_, ?_, ?_⟩
    · intro id hid
      rw [hpresented] at hid
      cases hid
    · intro id hid
      rw [hpresented] at hid
      cases hid
    · intro n hn
      cases hn
  · have hpresented : presentedId d.buf = none := by rw [presentedId, hparse]
    refine ⟨_, _, handle_connect blake3 order st.1 _ _ _ _ _ hparse, rfl, ?_, ?_, ?_, ?_⟩
    · intro ⟨e, he⟩
      rw [hparse] at he
      cases he
    · intro id hid
      rw [hpresented] at hid
      cases hid
    · intro id hid
      rw [hpresented] at hid
      cases hid
    · intro n hn
      cases hn
      obtain ⟨r, hr, hlen⟩ := parse_total d.buf
      rw [hparse] at hr
      cases hr
      refine ⟨rfl, fun hlong => ?_⟩
      have hmin : 16 ≤ d.buf.length := (hlen _ rfl).1
      omega
  · have hpresented : presentedId d.buf = some a.connectionId := by rw [presentedId, hparse]
    have herror : ¬∃ e, parse d.buf = some (.error e) := by
      intro ⟨e, he⟩
      rw [hparse] at he
      cases he
    cases hid : st.1.connid.validate blake3 a.connectionId d.srcIp.toList d.nowSecs with
    | false =>
        exact ⟨_, _, handle_announce_mismatch blake3 order st.1 _ _ _ _ _ hparse hid,
          gated_mismatch blake3 herror hpresented hid⟩
    | true =>
        obtain ⟨peers, hhandle, -⟩ := handle_announce blake3 order st.1 d.srcIp d.isV4 d.nowSecs d.interval st.2
          hparse hid
        refine ⟨_, _, hhandle, gated_reply blake3 rfl ?_ herror hpresented hid⟩
        simp only [announceHeader, List.length_append, length_toBe32]
  · have hpresented : presentedId d.buf = some s.connectionId := by rw [presentedId, hparse]
    have herror : ¬∃ e, parse d.buf = some (.error e) := by
      intro ⟨e, he⟩
      rw [hparse] at he
      cases he
    cases hid : st.1.connid.validate blake3 s.connectionId d.srcIp.toList d.nowSecs with
    | false =>
        exact ⟨_, _, handle_scrape_mismatch blake3 order st.1 _ _ _ _ _ hparse hid,
          gated_mismatch blake3 herror hpresented hid⟩
    | true =>
        refine ⟨_, _, handle_scrape blake3 order st.1 _ _ _ _ _ hparse hhashes hid,
          gated_reply blake3 rfl ?_ herror hpresented hid⟩
        rw [List.length_append, length_flatMap_const fun _ => length_scrapeEntry _]
        simp only [List.length_append, length_toBe32]

/-- A run never ends early, and keeps the connection-id scheme. -/
theorem run_total (st : Handler × List UInt8) (ds : List Datagram) :
    ∃ st', run blake3 order st ds = some st' ∧ st'.1.connid = st.1.connid := by
  induction ds generalizing st with
  | nil => exact ⟨st, rfl, rfl⟩
  | cons d ds ih =>
      obtain ⟨action, st', hserve, hgated⟩ := serve_gated blake3 order st d
      obtain ⟨st'', hrun, hconnid⟩ := ih st'
      refine ⟨st'', ?_, hconnid.trans hgated.connid⟩
      rw [run, hserve]
      exact hrun

/-- The turn of a datagram that presents an id: a reply exactly if the id is accepted. -/
theorem Gated.reply_iff {blake3 : Blake3} {st st' : Handler × List UInt8} {d : Datagram} {action : Action}
    (h : Gated blake3 st d action st') {id : UInt64} (hid : presentedId d.buf = some id) :
    (action = .connidMismatch ∨ ∃ n, action = .reply n) ∧
      (action ≠ .connidMismatch ↔ st.1.connid.validate blake3 id d.srcIp.toList d.nowSecs = true) := by
  cases hvalid : st.1.connid.validate blake3 id d.srcIp.toList d.nowSecs with
  | false =>
      have haction := (h.mismatched id hid hvalid).1
      exact ⟨.inl haction, fun hne => absurd haction hne, fun hfalse => by cases hfalse⟩
  | true =>
      obtain ⟨n, rfl⟩ := h.answered id hid hvalid
      exact ⟨.inr ⟨n, rfl⟩, fun _ => rfl, fun _ hne => by cases hne⟩

/-- The reply to a connect holds the id of its source. -/
theorem issuedId_of_serve {blake3 : Blake3} {order : HashOrder} {st st' : Handler × List UInt8} {c : Datagram}
    {transactionId : UInt32} {action : Action} (hc : parse c.buf = some (.ok (.connect transactionId)))
    (h : serve blake3 order st c = some (action, st')) :
    issuedId st'.2 = st.1.connid.generate blake3 c.srcIp.toList c.nowSecs := by
  rw [serve, handle_connect blake3 order st.1 c.srcIp c.isV4 c.nowSecs c.interval st.2 hc] at h
  cases h
  exact issuedId_connect _ _

/-- **The connection-id gate.** -/
theorem connid_gate (key : Bytes 32) (windowSecs : UInt64) (store : Store) (out : List UInt8) :
    let connid := ConnId.new key windowSecs
    let w := max windowSecs.toNat 1
    (∀ (pre : List Datagram) (c : Datagram) (mid : List Datagram) (q : Datagram) (transactionId : UInt32),
      parse c.buf = some (.ok (.connect transactionId)) → c.nowSecs.toNat ≤ q.nowSecs.toNat →
      connid.Separates blake3 (c.srcIp.toList, c.nowSecs / connid.windowSecs)
        (q.srcIp.toList, q.nowSecs / connid.windowSecs) →
      (0 < q.nowSecs / connid.windowSecs →
        connid.Separates blake3 (c.srcIp.toList, c.nowSecs / connid.windowSecs)
          (q.srcIp.toList, q.nowSecs / connid.windowSecs - 1)) →
      ∃ st₁ st₂ st₃, run blake3 order (⟨store, connid⟩, out) pre = some st₁ ∧
        serve blake3 order st₁ c = some (.reply 16, st₂) ∧ run blake3 order st₂ mid = some st₃ ∧
        (presentedId q.buf = some (issuedId st₂.2) →
          ∃ action st₄, serve blake3 order st₃ q = some (action, st₄) ∧
            (action = .connidMismatch ∨ ∃ n, action = .reply n) ∧
            (action ≠ .connidMismatch ↔
              q.srcIp = c.srcIp ∧ q.nowSecs.toNat / w ≤ c.nowSecs.toNat / w + 1) ∧
            (q.srcIp = c.srcIp → q.nowSecs.toNat ≤ c.nowSecs.toNat + w → action ≠ .connidMismatch) ∧
            (c.nowSecs.toNat + 2 * w ≤ q.nowSecs.toNat → action = .connidMismatch) ∧
            (q.srcIp ≠ c.srcIp → action = .connidMismatch))) ∧
    ∀ (pre : List Datagram) (d : Datagram), ∃ st action st',
      run blake3 order (⟨store, connid⟩, out) pre = some st ∧ st.1.connid = connid ∧
        serve blake3 order st d = some (action, st') ∧ Gated blake3 st d action st' := by
  intro connid w
  have hw : connid.windowSecs.toNat = w := ConnId.toNat_windowSecs_new key windowSecs
  constructor
  · intro pre c mid q transactionId hc hle hcur hprev
    obtain ⟨st₁, hrun, hconnid₁⟩ := run_total blake3 order (⟨store, connid⟩, out) pre
    have hserve := handle_connect blake3 order st₁.1 c.srcIp c.isV4 c.nowSecs c.interval st₁.2 hc
    rw [hconnid₁] at hserve
    obtain ⟨st₃, hmid, hconnid₃⟩ := run_total blake3 order (st₁.1,
      toBe32 0 ++ toBe32 transactionId ++ toBe64 (connid.generate blake3 c.srcIp.toList c.nowSecs)) mid
    refine ⟨st₁, _, st₃, hrun, hserve, hmid, fun hid => ?_⟩
    rw [issuedId_connect] at hid
    obtain ⟨action, st₄, hq, hgated⟩ := serve_gated blake3 order st₃ q
    obtain ⟨hanswer, hvalid⟩ := hgated.reply_iff hid
    rw [hconnid₃, hconnid₁, ConnId.validate_generate_iff hcur hprev, ConnId.windowIndex, ConnId.windowIndex,
      hw] at hvalid
    -- time has not gone backwards, so the window is the same or a later one
    have hmono : c.nowSecs.toNat / w ≤ q.nowSecs.toNat / w := Nat.div_le_div_right hle
    have hiff : action ≠ .connidMismatch ↔
        q.srcIp = c.srcIp ∧ q.nowSecs.toNat / w ≤ c.nowSecs.toNat / w + 1 := by
      rw [hvalid]
      constructor
      · rintro ⟨hip, hwin⟩
        exact ⟨(Bytes.ext hip).symm, by omega⟩
      · rintro ⟨hip, hwin⟩
        exact ⟨by rw [hip], by omega⟩
    refine ⟨action, st₄, hq, hanswer, hiff, fun hip hsoon => hiff.mpr ⟨hip, ?_⟩, fun hlate => ?_, fun hip => ?_⟩
    · have hstep := @ConnId.windowIndex_le_succ connid c.nowSecs q.nowSecs (by rw [hw]; exact hsoon)
      rwa [ConnId.windowIndex, ConnId.windowIndex, hw] at hstep
    · have hstep := @ConnId.windowIndex_add_two_le connid c.nowSecs q.nowSecs (by rw [hw]; exact hlate)
      rw [ConnId.windowIndex, ConnId.windowIndex, hw] at hstep
      by_contra hne
      have := (hiff.mp hne).2
      omega
    · by_contra hne
      exact hip (hiff.mp hne).1
  · intro pre d
    obtain ⟨st, hrun, hconnid⟩ := run_total blake3 order (⟨store, connid⟩, out) pre
    obtain ⟨action, st', hserve, hgated⟩ := serve_gated blake3 order st d
    exact ⟨st, action, st', hrun, hconnid, hserve, hgated⟩

/-- A malformed datagram and a connect of a third source, around a connect. -/
def passing : List Datagram :=
  [⟨[1, 2, 3], .replicate _ 3, false, 990, 1800⟩, ⟨header protocolId 0 9 [], .replicate _ 3, false, 1010, 1800⟩]

def connecting : Datagram := ⟨header protocolId 0 1 [], .replicate _ 1, false, 1000, 1800⟩

def gateConnid : ConnId := .new (.replicate _ 7) 120

/-- A scrape a minute later that presents the id. -/
def scraping (srcIp : Bytes 16) : Datagram :=
  ⟨header (gateConnid.generate cutHash (List.replicate 16 1) 1000) 2 2 [], srcIp, false, 1060, 1800⟩

theorem presentedId_scraping (srcIp : Bytes 16) :
    presentedId (scraping srcIp).buf = some (gateConnid.generate cutHash (List.replicate 16 1) 1000) := by
  have hparse : parse (scraping srcIp).buf = parse (scraping (.replicate _ 1)).buf := rfl
  rw [presentedId, hparse]
  decide +kernel

/-- The id is good for its own source, and for no other. -/
theorem connid_gate_borrowing : ∃ st₁ st₂ st₃ st₄ st₅ n,
    run cutHash HashOrder.arbitrary (⟨.new, gateConnid⟩, []) passing = some st₁ ∧
      serve cutHash HashOrder.arbitrary st₁ connecting = some (.reply 16, st₂) ∧
      run cutHash HashOrder.arbitrary st₂ passing = some st₃ ∧
      presentedId (scraping (.replicate _ 2)).buf = some (issuedId st₂.2) ∧
      serve cutHash HashOrder.arbitrary st₃ (scraping (.replicate _ 2)) = some (.connidMismatch, st₄) ∧
      serve cutHash HashOrder.arbitrary st₃ (scraping (.replicate _ 1)) = some (.reply n, st₅) := by
  have hgates := connid_gate cutHash HashOrder.arbitrary (.replicate _ 7) 120 .new []
  obtain ⟨st₁, st₂, st₃, hpre, hconnect, hmid, hother⟩ := hgates.1 passing connecting passing
    (scraping (.replicate _ 2)) 1 rfl (by decide) (by unfold ConnId.Separates; decide)
    (fun _ => by unfold ConnId.Separates; decide)
  obtain ⟨st₁', st₂', st₃', hpre', hconnect', hmid', hown⟩ := hgates.1 passing connecting passing
    (scraping (.replicate _ 1)) 1 rfl (by decide) (by unfold ConnId.Separates; decide)
    (fun _ => by unfold ConnId.Separates; decide)
  -- the two applications meet the same run
  cases hpre.symm.trans hpre'
  cases hconnect.symm.trans hconnect'
  cases hmid.symm.trans hmid'
  obtain ⟨_, hrun, hconnid⟩ := run_total cutHash HashOrder.arbitrary (⟨.new, gateConnid⟩, []) passing
  cases hpre.symm.trans hrun
  have hparse : parse connecting.buf = some (.ok (.connect 1)) := rfl
  have hissued : issuedId st₂.2 = gateConnid.generate cutHash (List.replicate 16 1) 1000 := by
    rw [issuedId_of_serve hparse hconnect, hconnid]
    rfl
  have hpresents (srcIp : Bytes 16) : presentedId (scraping srcIp).buf = some (issuedId st₂.2) := by
    rw [presentedId_scraping, hissued]
  obtain ⟨_, st₄, hserve, -, -, -, -, hmismatch⟩ := hother (hpresents _)
  obtain ⟨_, st₅, hserve', hanswer, -, hsoon, -⟩ := hown (hpresents _)
  obtain rfl := hmismatch (by decide)
  obtain ⟨n, rfl⟩ := hanswer.resolve_left (hsoon rfl (by decide))
  exact ⟨st₁, st₂, st₃, st₄, st₅, n, hpre, hconnect, hmid, hpresents _, hserve, hserve'⟩

end Handler
end Bluefrog
