import OrderWatch.Event.Codec
import OrderWatch.Tracker

/-
  What a tracker shows of itself as JSON.

  Key definitions:
    * `Tracker.Summary.encode`
    * `Message.encode`
-/

namespace OrderWatch

def Tracker.Summary.encode (s : Tracker.Summary) : Json :=
  .record
    [("active_orders", .nat s.active.length),
      ("cached_orders", .nat s.retired.length),
      ("active_order_ids", .array (s.active.map .str)),
      ("cached_order_ids", .array (s.retired.map .str)),
      ("timestamp", .int s.time)]

/- The details of a message stand beside its text. -/
def Message.encode (m : Message) : Json :=
  .record
    (("level", .word m.level) :: ("message", .str m.text)
      :: m.details.map fun (name, value) => (name, .str value))

end OrderWatch
