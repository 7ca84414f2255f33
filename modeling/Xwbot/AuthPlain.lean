import Xwbot.Base64
import Xwbot.Wire
import Xwbot.XString

/-!
# The response of PLAIN

`xmpp_auth_get_plain_hash` puts its message together in a block that is one byte short of the
terminator of the password.  The allocator rounds the size up, so only a message whose length it
would not round leaves the block.
-/

namespace Xwbot

namespace AuthPlain

variable (heap : Nat → Byte) (uname pw jiddomain : Text)

/-- What is to be sent. -/
def message : List Byte :=
  uname ++ lit "@" ++ jiddomain ++ [0] ++ uname ++ [0] ++ pw

/-- The length of the message as `xmpp_auth_get_plain_hash` computes it. -/
def size : Nat :=
  2 * uname.length + jiddomain.length + pw.length + 3

/-- `xmpp_auth_get_plain_hash`.  The block of `x_local_malloc` holds what the heap holds. -/
def xmppAuthGetPlainHash : Except Fault Text := do
  let ulen := uname.length
  let hlen := jiddomain.length
  let tmp := (List.range (strMemlenAlign (size uname pw jiddomain))).map heap
  let tmp ← copyTo tmp 0 (uname ++ lit "@" ++ jiddomain ++ [0])
  let tmp ← copyTo tmp (ulen + hlen + 2) (uname ++ [0])
  let tmp ← copyTo tmp (2 * ulen + hlen + 3) (pw ++ [0])
  .ok (base64Encode (slice tmp 0 (size uname pw jiddomain)))

variable {heap uname pw jiddomain}

theorem length_message : (message uname pw jiddomain).length = size uname pw jiddomain := by
  simp only [message, size, lit, List.length_append, List.length_map, String.length_toList,
    List.length_cons, List.length_nil]
  change uname.length + 1 + jiddomain.length + 1 + uname.length + 1 + pw.length = _
  ring

/-- The last terminator is what may not fit. -/
theorem xmppAuthGetPlainHash_eq : xmppAuthGetPlainHash heap uname pw jiddomain =
    if size uname pw jiddomain % strBufsiz ≠ 0 then
      .ok (base64Encode (message uname pw jiddomain))
    else .error .overflow := by
  let tmp := (List.range (strMemlenAlign (size uname pw jiddomain))).map heap
  obtain ⟨jid, jid_eq⟩ : ∃ jid, jid = uname ++ lit "@" ++ jiddomain ++ [0] := ⟨_, rfl⟩
  obtain ⟨login, login_eq⟩ : ∃ login, login = jid ++ (uname ++ [0]) := ⟨_, rfl⟩
  have lengthTmp : tmp.length = strMemlenAlign (size uname pw jiddomain) := by simp [tmp]
  have lengthJid : uname.length + jiddomain.length + 2 = jid.length := by
    simp only [jid_eq, List.length_append]
    change _ = uname.length + 1 + jiddomain.length + 1
    ring
  have lengthLogin : 2 * uname.length + jiddomain.length + 3 = login.length := by
    rw [login_eq, List.length_append, ← lengthJid, List.length_append, List.length_singleton]
    ring
  have sizeEq : size uname pw jiddomain = login.length + pw.length := by
    rw [← lengthLogin, size]
    ring
  have fits := le_strMemlenAlign (size uname pw jiddomain)
  have shorter : jid.length ≤ login.length := by
    rw [login_eq, List.length_append]
    exact Nat.le_add_right _ _
  have first : copyTo tmp 0 jid = .ok (jid ++ tmp.drop jid.length) :=
    copyTo_drop tmp [] (by rw [List.length_nil]; omega)
  have second : copyTo (jid ++ tmp.drop jid.length) jid.length (uname ++ [0]) =
      .ok (login ++ tmp.drop login.length) := by
    rw [login_eq]
    exact copyTo_drop tmp jid (by rw [← List.length_append, ← login_eq]; omega)
  unfold xmppAuthGetPlainHash
  dsimp only
  rw [← jid_eq, first, ok_bind, lengthJid, second, ok_bind, lengthLogin]
  have lastLength : (pw ++ [(0 : Byte)]).length = pw.length + 1 := by simp
  split
  · next rounded =>
      have more := (lt_strMemlenAlign_iff _).mpr rounded
      rw [copyTo_drop tmp login (by omega), ok_bind]
      have whole : message uname pw jiddomain = login ++ pw := by
        simp only [message, login_eq, jid_eq, List.append_assoc]
      have sent : slice (login ++ (pw ++ [0]) ++ tmp.drop (login ++ (pw ++ [0])).length) 0
          (size uname pw jiddomain) = message uname pw jiddomain := by
        rw [slice, List.drop_zero, ← length_message, ← List.append_assoc login, ← whole,
          List.append_assoc, List.take_left]
      rw [sent]
  · next full =>
      have tight := mt (lt_strMemlenAlign_iff (size uname pw jiddomain)).mp full
      have outside : ¬login.length + (pw ++ [(0 : Byte)]).length ≤
          (login ++ tmp.drop login.length).length := by
        rw [lastLength, @List.length_append _ login, List.length_drop, lengthTmp]
        omega
      rw [copyTo, if_neg outside, error_bind]

/-- **The response of PLAIN.**  It is made inside its block, and encodes the message, exactly if
the length of the message is not one that the allocator leaves as it is. -/
theorem responds_iff (heap stack : Nat → Byte) (uname pw jiddomain : Text) :
    (∃ hash, xmppAuthGetPlainHash heap uname pw jiddomain = .ok hash ∧
        base64Decode stack hash = message uname pw jiddomain) ↔
      size uname pw jiddomain % strBufsiz ≠ 0 := by
  rw [xmppAuthGetPlainHash_eq]
  split
  · next rounded =>
      exact iff_of_true ⟨_, rfl, base64Decode_base64Encode stack _⟩ rounded
  · next full =>
      refine iff_of_false ?_ full
      rintro ⟨hash, impossible, -⟩
      cases impossible

/-- For the user `alice` of `example.org` and a password of eight bytes, the terminator is written
behind the block. -/
theorem not_responds_eight :
    xmppAuthGetPlainHash (fun _ => 0) (lit "alice") (lit "xyzzyabc") (lit "example.org") =
        .error .overflow ∧
      ¬∃ hash, xmppAuthGetPlainHash (fun _ => 0) (lit "alice") (lit "xyzzyabc")
          (lit "example.org") = .ok hash ∧
        base64Decode (fun _ => 0) hash =
          message (lit "alice") (lit "xyzzyabc") (lit "example.org") := by
  have fault : xmppAuthGetPlainHash (fun _ => 0) (lit "alice") (lit "xyzzyabc")
      (lit "example.org") = .error .overflow := by
    rw [xmppAuthGetPlainHash_eq]
    decide
  refine ⟨fault, ?_⟩
  rintro ⟨hash, result, -⟩
  rw [fault] at result
  cases result

end AuthPlain

end Xwbot
