import GDNet.Queue.Bounded
import GDNet.Queue.Linearizable
import GDNet.Lock.Turnstile
import GDNet.Host.Lifetime
import GDNet.Host.Polling
import GDNet.Host.Replies
import GDNet.Host.Numbers
import GDNet.Host.Brackets
import GDNet.Host.DisconnectLater
import GDNet.Host.Ledger
import GDNet.Host.Sessions
import GDNet.Transport.Handling
import GDNet.Transport.Checksum
import GDNet.Transport.Complete
import GDNet.Transport.Transit
import GDNet.Transport.Listening
