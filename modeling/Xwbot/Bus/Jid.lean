import Xwbot.AttrList
import Xwbot.Fault

/-!
# The account in a JID

The commit of the bus cuts its JID at the first `@`, what is behind at the first slash, and what is
in front of that at the first colon.  A JID without a slash is given up, although there is a
default for the resource, and the start of the bus goes on whatever the commit says.
-/

namespace Xwbot.Jid

/-- `ptr1 = strchr(ptr, c)` and `*ptr1++ = '\0'`. -/
def cutAt (c : Byte) (ptr : Text) : Option (Text × Text) :=
  (strchr ptr c).map fun found => (ptr.take (ptr.length - found.length), found.tail)

/-- `XMPP_PORT_STR` -/
def xmppPortStr : Text :=
  lit "5222"

/-- What `hostname` is set to if it is not set. -/
def hostnameOf (ptr1 : Text) : Text :=
  if eqText ptr1 (lit "gmail.com") then lit "talk.google.com"
  else if eqText ptr1 (lit "vk.com") then lit "vkmessenger.ru"
  else if eqText ptr1 (lit "qip.ru") then lit "xmpp-server.qip.ru"
  else ptr1

/-- `__x_bus_jid_commit`: what is returned, and the attributes of the bus. -/
def jidCommit (bus : AttrList) : Except Fault (Int × AttrList) :=
  match getattr (lit "jid") bus with
  | none => .error .exit
  | some jid =>
      match cutAt (ch '@') jid with
      | none => .ok (-1, bus)
      | some (ptr, ptr1) =>
          match cutAt (ch '/') ptr1 with
          | none => .ok (-1, bus)
          | some (ptr1, ptr2) =>
              let bus := setattr (lit "username") (some ptr) bus
              -- `ptr2 ? ptr2 : "gobee"` with a pointer that is not NULL
              let bus := setattr (lit "resource") (some ptr2) bus
              let (ptr1, servicename) := (cutAt (ch ':') ptr1).getD (ptr1, xmppPortStr)
              let bus := setattr (lit "servicename") (some servicename) bus
              let bus := setattr (lit "domain") (some ptr1) bus
              if (getattr (lit "hostname") bus).isSome then .ok (0, bus)
              else .ok (0, setattr (lit "hostname") (some (hostnameOf ptr1)) bus)

/-- What the bus is started with: its name and attributes, and what `getaddrinfo` is asked for. -/
structure Started where
  name : Text
  bus : AttrList
  hostname : Text
  servicename : Text
  deriving DecidableEq, Repr

/-- `__x_bus_finalize` up to the connection.  The result of the commit is not looked at, and
`x_object_set_name` does not take NULL. -/
def finalize (bus : AttrList) : Except Fault Started := do
  let (_, bus) ← jidCommit bus
  match getattr (lit "hostname") bus with
  | none => .error .bug
  | some hostname =>
      .ok ⟨hostname, bus, hostname, (getattr (lit "servicename") bus).getD xmppPortStr⟩

/-! ## The parts of a JID -/

/-- A user at a domain, perhaps with a port and a resource. -/
structure Account where
  user : Text
  domain : Text
  port : Option Text
  resource : Option Text
  user_free : ch '@' ∉ user
  domain_free : ch ':' ∉ domain ∧ ch '/' ∉ domain
  port_free : ∀ text, port = some text → ch '/' ∉ text

namespace Account

/-- The part in front of the resource and behind the user. -/
def authority (account : Account) : Text :=
  account.domain ++ account.port.elim [] (ch ':' :: ·)

def text (account : Account) : Text :=
  account.user ++ ch '@' :: (account.authority ++ account.resource.elim [] (ch '/' :: ·))

end Account

section Cut

variable {c : Byte} {before behind ptr : Text}

end Cut

variable {bus new : AttrList} {jid : Text} {account : Account}

namespace Account

end Account

end Xwbot.Jid
