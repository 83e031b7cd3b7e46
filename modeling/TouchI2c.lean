import TouchI2c.Bus.Atomic
import TouchI2c.Bus.Contract
import TouchI2c.Bus.Deadline
import TouchI2c.Bus.Firmware
import TouchI2c.Bus.Timing
import TouchI2c.DwI2c.Budget
import TouchI2c.DwI2c.CommandStream
import TouchI2c.DwI2c.Completion
import TouchI2c.DwI2c.Isolation
import TouchI2c.HidParse.Overflow
import TouchI2c.HidParse.Pages
import TouchI2c.Platform.Capability
import TouchI2c.Smbios.Encode
import TouchI2c.Tools.MtkTiming
import TouchI2c.Touch.Agreement
import TouchI2c.Touch.Cleared
import TouchI2c.Touch.Confined
import TouchI2c.Touch.DmaSafe
import TouchI2c.Touch.Holdings
import TouchI2c.Touch.Identity
import TouchI2c.Touch.Kick
import TouchI2c.Touch.Latency
import TouchI2c.Touch.LeftIdle
import TouchI2c.Touch.Monotone
import TouchI2c.Touch.Programmed
import TouchI2c.Touch.Timers
import TouchI2c.Touch.Truncated
