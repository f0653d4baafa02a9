import Saliwen.Lib.Run
import Saliwen.Lib.PartialUpdate
import Saliwen.Lib.Interleave
import Saliwen.Lib.Word
import Saliwen.Lib.Shift
import Saliwen.Lib.Range
import Saliwen.Lib.BitField
import Saliwen.Lib.Rounding
import Saliwen.Lib.TimerQueue
import Saliwen.Lib.Latch
import Saliwen.Lib.Mailbox
import Saliwen.Lib.Once
import Saliwen.Lib.Wrap
import Saliwen.Lib.Ring
import Saliwen.Lib.Nearest
import Saliwen.Lib.Inheritance
import Saliwen.Board
import Saliwen.App
import Saliwen.LedShadow
import Saliwen.LedUpdate
import Saliwen.MotorRace
import Saliwen.Fbm320.Coefficient
import Saliwen.Fbm320.Calculate
import Saliwen.Fbm320.Driver
import Saliwen.Fbm320.Agreement
import Saliwen.Fbm320.BusFailure
import Saliwen.Fbm320.Initialisation
import Saliwen.Fbm320.Packing
import Saliwen.Fbm320.Values
import Saliwen.Fbm320.Split
import Saliwen.Fbm320.Polynomial
import Saliwen.Fbm320.Overflow
import Saliwen.Htu21d.Driver
import Saliwen.Htu21d.Sharing
import Saliwen.Clap.Groups
import Saliwen.Clap.Recogniser
import Saliwen.Clap.Correct
import Saliwen.StartUp
import Saliwen.Publish.Loop
import Saliwen.Publish.Requests
import Saliwen.Publish.Measurements
import Saliwen.Publish.Telemetry
import Saliwen.Publish.Mail
import Saliwen.CJson.Value
import Saliwen.CJson.Parse
import Saliwen.CJson.Tokens
import Saliwen.CJson.Continuation
import Saliwen.CJson.Print
import Saliwen.CJson.NumberText
import Saliwen.CJson.RoundTrip
import Saliwen.CJson.Floats
import Saliwen.Remote.Handler
import Saliwen.Remote.Payload
import Saliwen.Remote.Configuration
import Saliwen.Remote.Automatic
import Saliwen.Remote.StopHolds
import Saliwen.Remote.StopFinal
import Saliwen.Mqtt.Packet
import Saliwen.Mqtt.Publish
import Saliwen.Mqtt.Acknowledge
import Saliwen.Mqtt.Connect
import Saliwen.Mqtt.Topic
import Saliwen.Mqtt.Connection
import Saliwen.Mqtt.Stream
import Saliwen.Mqtt.Send
import Saliwen.Mqtt.Client
import Saliwen.Mqtt.Records
import Saliwen.Mqtt.Resend
import Saliwen.Mqtt.Subscriptions
import Saliwen.Kernel.Timer
import Saliwen.Kernel.Expiry
import Saliwen.Kernel.Ipc
import Saliwen.Kernel.Mailbox
import Saliwen.Kernel.Mutex
import Saliwen.Clap.Kernel
