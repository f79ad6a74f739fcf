import OmniRobot.Crsf.ReadSize
import OmniRobot.Crsf.Recovery
import OmniRobot.Crsf.Safety
import OmniRobot.Crsf.TelemetryFraming
import OmniRobot.Crsf.Corruption
import OmniRobot.Motor.Desaturation
import OmniRobot.Imu.ShortWay
import OmniRobot.Imu.Noise
import OmniRobot.Interleaving.Heading
import OmniRobot.Interleaving.Ticks
import OmniRobot.Loop.ServoToggle
import OmniRobot.Loop.Headless
import OmniRobot.Loop.NoSignal
import OmniRobot.Loop.YawHoldMemory
import OmniRobot.Loop.Rotation
import OmniRobot.Loop.PilotInputs
import OmniRobot.Loop.Backlog
import OmniRobot.Loop.ServoPulses
import OmniRobot.Loop.Monitor
import OmniRobot.Crsf.Messages
import OmniRobot.Loop.Sticks
import OmniRobot.Imu.Registers
import OmniRobot.Loop.Drivetrain
import OmniRobot.Loop.Envelope
import OmniRobot.Loop.Course
import OmniRobot.Loop.HandsOff
import OmniRobot.Interleaving.Accesses
import OmniRobot.Interleaving.Races
import OmniRobot.Interleaving.Preemption
